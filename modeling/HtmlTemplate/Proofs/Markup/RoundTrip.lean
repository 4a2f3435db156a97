import Mathlib.Data.List.Nodup
import HtmlTemplate.Proofs.Markup.Nested
import HtmlTemplate.Proofs.Markup.Passes

/-!
Hiding and resolving are inverse.

A pass turns a nested text into a nested text with the same source: it puts tokens around whole
spans, and since a span begins and ends with characters that no token holds, or lies between two
such, no token is cut. The table always has each span of the nested text once. What is left of
four passes over a text without tokens is its round trip.
-/

namespace HtmlTemplate

/-! ### Where tokens stand -/

namespace Nested

/-- The text begins like a hidden span. -/
def Begins (r : Nested) : Prop := ∃ c t, r.source = c :: t ∧ Span.startsSpan c = true

/-- Every token stands at a place where any row may be hidden, or for a text that begins like a
hidden span. The text itself stands at such a place if `free`. -/
def Guarded : (free : Bool) → Nested → Prop
  | _, nil => True
  | _, char c _ rest => Guarded (Span.freeAfter c) rest
  | free, token _ inside rest => (free = true ∨ inside.Begins) ∧ Guarded false rest

/-- Whether any row may be hidden right after a text. -/
def freeBehind : (free : Bool) → Nested → Bool
  | free, nil => free
  | _, char c _ rest => freeBehind (Span.freeAfter c) rest
  | _, token _ _ rest => freeBehind false rest

variable {free : Bool} {r s : Nested}

@[simp] lemma guarded_append :
    Guarded free (r ++ s) ↔ Guarded free r ∧ Guarded (freeBehind free r) s := by
  induction r generalizing free with
  | nil => simp [Guarded, freeBehind]
  | char c h r ih => simpa [Guarded, freeBehind] using ih
  | token n i r _ ih => simp [Guarded, freeBehind, ih, and_assoc]

@[simp] lemma freeBehind_append :
    freeBehind free (r ++ s) = freeBehind (freeBehind free r) s := by
  induction r generalizing free with
  | nil => rfl
  | char c h r ih => simpa [freeBehind] using ih
  | token n i r _ ih => simpa [freeBehind] using ih

/-- A text without tokens. -/
lemma guarded_of_numbers_eq_nil (h : r.numbers = []) : Guarded free r := by
  induction r generalizing free with
  | nil => trivial
  | char c _ r ih => exact ih h
  | token n i r _ _ => simp at h

end Nested

/-- Where such a span ends, no token is cut, and right behind it only some rows may be hidden. -/
lemma Span.EndsSpan.outside_token {c : Char} (h : Span.EndsSpan c) (n : Nat) :
    c ∉ Placeholders.token n ∧ Span.freeAfter c = false := by
  rcases h with rfl | rfl <;> exact ⟨Placeholders.not_mem_token rfl n, rfl⟩

namespace Placeholders

/-- The entries of a table are numbered without gaps, newest first. -/
def Numbered (p : Placeholders) : Prop :=
  p.entries.map Prod.fst = (List.range' 1 p.issued).reverse

lemma numbered_empty : Numbered empty := rfl

lemma Numbered.insert {p : Placeholders} (h : p.Numbered) (span : Text) :
    (p.insert span).2.Numbered := by
  have hr : List.range' 1 (p.issued + 1) = List.range' 1 p.issued ++ [p.issued + 1] := by
    rw [List.range'_concat, Nat.one_mul, Nat.add_comm 1]
  change (p.issued + 1) :: p.entries.map Prod.fst = (List.range' 1 (p.issued + 1)).reverse
  rw [h, hr, List.reverse_append]
  rfl

lemma Numbered.insertAll {p : Placeholders} (h : p.Numbered) (rows : List Text) :
    (p.insertAll rows).2.Numbered := by
  induction rows generalizing p with
  | nil => exact h
  | cons row rows ih => exact ih (h.insert row)

lemma Numbered.hide {p : Placeholders} (h : p.Numbered) (ss : List Span) :
    (p.hide ss).2.Numbered := by
  induction ss generalizing p with
  | nil => exact h
  | cons s ss ih =>
    cases s with
    | shown t => exact ih h
    | hidden rows => exact ih (h.insertAll rows)

lemma Numbered.hideAll {p : Placeholders} (h : p.Numbered) (source : Text) :
    (p.hideAll source).2.Numbered :=
  (((h.hide _).hide _).hide _).hide _

lemma Numbered.nodup {p : Placeholders} (h : p.Numbered) : (p.entries.map Prod.fst).Nodup := by
  rw [h]
  exact List.nodup_reverse.2 List.nodup_range'

lemma lookup_of_mem {es : List (Nat × Text)} (h : (es.map Prod.fst).Nodup) {e : Nat × Text}
    (he : e ∈ es) : es.lookup e.1 = some e.2 := by
  induction es with
  | nil => cases he
  | cons x es ih =>
    rw [List.map_cons, List.nodup_cons] at h
    rcases List.mem_cons.1 he with rfl | he
    · rw [List.lookup_cons, beq_self_eq_true]
    · have hne : (e.1 == x.1) = false := by
        simp only [beq_eq_false_iff_ne, ne_eq]
        rintro hx
        exact h.1 (hx ▸ List.mem_map_of_mem he)
      rw [List.lookup_cons, hne]
      exact ih h.2 he

/-! ### Hiding a nested text -/

/-- Tokens for the rows of a nested text, with line feeds between them. -/
lemma exists_insertAll (p : Placeholders) (h : Nested) (es : List (Nat × Text))
    (hp : p.entries.Perm (es ++ h.entries)) :
    ∃ w : Nested, w.shown = Text.unrows (p.insertAll (Text.rows h.shown)).1 ∧
      w.source = h.source ∧ (p.insertAll (Text.rows h.shown)).2.entries.Perm (es ++ w.entries) ∧
      (∀ k, ∀ x ∈ w.seen k, x.2 = '\n' ∧ x ∈ h.seen k) ∧
      ∀ free, free = true ∨ h.Begins →
        ∀ s, Nested.Guarded false s → Nested.Guarded free (w ++ s) := by
  generalize ht : h.shown = t
  induction t using Text.rows_induction generalizing p h es with
  | single t hn =>
    refine ⟨.token (p.issued + 1) h .nil, ?_, ?_, ?_, ?_, fun free hfree s hs => ⟨hfree, hs⟩⟩
    · simp [Text.rows_of_not_mem hn, insertAll, insert, Nested.shown]
    · simp [Nested.source]
    · simp only [Text.rows_of_not_mem hn, insertAll, insert, Nested.entries, ht,
        List.append_nil]
      exact (hp.cons _).trans List.perm_middle.symm
    · intro k x hx
      cases hx
  | feed a b hn ih =>
    obtain ⟨ha, hb, plain, rfl, rfl, rfl⟩ := Nested.exists_cut_plain rfl ht
    have hp' : (p.insert ha.shown).2.entries.Perm
        ((es ++ (p.issued + 1, ha.shown) :: ha.entries) ++ hb.entries) := by
      refine (hp.cons _).trans ?_
      simp only [Nested.entries_append, Nested.entries, List.append_assoc, List.cons_append]
      exact List.perm_middle.symm
    obtain ⟨w, hw, hs, he, hseen, hguard⟩ := ih (p.insert ha.shown).2 hb _ hp' rfl
    refine ⟨.token (p.issued + 1) ha (.char '\n' plain w), ?_, ?_, ?_, fun k x hx => ?_,
      fun free hfree s hs => ?_⟩
    · obtain ⟨row, rows, hr⟩ := List.exists_cons_of_ne_nil (Text.rows_ne_nil hb.shown)
      rw [Text.rows_append_feed hn, Nested.shown, Nested.shown, hw, hr]
      simp [insertAll, insert]
    · simp [Nested.source, hs]
    · rw [Text.rows_append_feed hn]
      simpa [insertAll, Nested.entries] using he
    · rw [Nested.seen_append]
      rcases List.mem_cons.1 hx with rfl | hx
      · exact ⟨rfl, List.mem_append_right _ List.mem_cons_self⟩
      · obtain ⟨hfeed, hx⟩ := hseen _ x hx
        exact ⟨hfeed, List.mem_append_right _ (List.mem_cons_of_mem _ hx)⟩
    · refine ⟨hfree.imp_right ?_, hguard true (.inl rfl) s hs⟩
      rintro ⟨c, t, hsource, hc⟩
      rw [Nested.source_append] at hsource
      cases ha' : ha.source with
      | nil =>
        rw [ha'] at hsource
        obtain rfl := (List.cons.inj hsource).1
        cases hc
      | cons d u =>
        rw [ha'] at hsource
        obtain rfl := (List.cons.inj hsource).1
        exact ⟨d, u, ha', hc⟩

open HtmlTemplate.Span in
/-- **A pass keeps the source.** It turns a nested text into a nested text, whose spans are
the entries of the table; it shows nothing new, and its tokens are as guarded as before. -/
lemma exists_hide {ends : Char → Prop} {ss : List Span} (hl : Laid ends ss) (p : Placeholders)
    (r : Nested) (t : Text) (es : List (Nat × Text))
    (hends : ∀ c, ends c → ∀ n ∈ r.numbers, c ∉ token n ∧ Span.freeAfter c = false)
    (hr : r.shown = t ++ sources ss) (hp : p.entries.Perm (es ++ r.entries)) :
    ∃ r' : Nested, r'.shown = t ++ (p.hide ss).1 ∧ r'.source = r.source ∧
      (p.hide ss).2.entries.Perm (es ++ r'.entries) ∧ (∀ k, r'.seen k ⊆ r.seen k) ∧
      ∀ free, r.Guarded free → r'.Guarded free := by
  induction hl generalizing p r t es with
  | nil => exact ⟨r, hr, rfl, hp, fun _ _ h => h, fun _ h => h⟩
  | shown u _ ih =>
    obtain ⟨r', h1, h2, h3, hseen, h4⟩ := ih p r (t ++ u) es hends (by simpa using hr) hp
    exact ⟨r', by simpa [hide] using h1, h2, h3, hseen, h4⟩
  | @marked x y m ss start stop _ ih =>
    have hx : inToken x = false := by
      simp only [startsSpan, Bool.or_eq_true, beq_iff_eq] at start
      rcases start with (rfl | rfl) | rfl <;> rfl
    rw [sources_hidden, Text.unrows_rows] at hr
    obtain ⟨a, r, px, rfl, rfl, hr₁⟩ := Nested.exists_cut_plain (b := m ++ y :: sources ss) hx
      (by simpa using hr)
    simp only [Nested.numbers_append, Nested.numbers_char, List.mem_append] at hends
    obtain ⟨b, r, py, rfl, rfl, hr₂⟩ :=
      Nested.exists_cut (fun n hn => (hends y stop n (.inr hn)).1) hr₁
    -- the hidden span, as a nested text of its own
    obtain ⟨w, hw, hws, hwe, hwseen, hwg⟩ := exists_insertAll p (.char x px b ++ .char y py .nil)
      (es ++ a.entries ++ r.entries) (hp.trans (by
        refine List.perm_iff_count.2 fun e => ?_
        simp only [Nested.entries_append, Nested.entries, List.count_append, List.count_nil]
        omega))
    have hh : (Nested.char x px b ++ .char y py .nil).shown = x :: b.shown ++ [y] := by
      simp [Nested.shown]
    rw [hh] at hw hwe
    obtain ⟨r', h1, h2, h3, hseen, h4⟩ := ih _ r [] (es ++ a.entries ++ w.entries)
      (fun c hc n hn => hends c hc n (.inr (by simp [hn]))) hr₂ (hwe.trans (by
        refine List.perm_iff_count.2 fun e => ?_
        simp only [List.count_append]
        omega))
    refine ⟨a ++ w ++ r', ?_, ?_, ?_, fun k => ?_, fun free hguarded => ?_⟩
    · rw [Nested.shown_append, Nested.shown_append, hw, h1]
      simp [hide]
    · simp [hws, h2, Nested.source]
    · simpa [hide] using h3
    · have hsplit : Nested.char x px (b ++ .char y py r) =
          .char x px b ++ .char y py .nil ++ r := by
        simp [Nested.append_assoc]
      intro z hz
      rw [Nested.append_assoc, Nested.seen_append, Nested.seen_append, List.mem_append,
        List.mem_append] at hz
      rw [hsplit, Nested.seen_append, Nested.seen_append, ← hws, List.mem_append, List.mem_append]
      exact hz.imp_right (Or.imp (fun hz => (hwseen _ z hz).2) fun hz => hseen _ hz)
    · simp only [Nested.guarded_append, Nested.Guarded] at hguarded
      -- what stood behind the last hidden character stands behind a token now
      have hrest : Nested.Guarded false r := by
        cases hy : freeAfter y with
        | false => exact hy ▸ hguarded.2.2
        | true =>
          refine Nested.guarded_of_numbers_eq_nil (List.eq_nil_iff_forall_not_mem.2 fun n hn => ?_)
          rw [(hends y stop n (.inr (by simp [hn]))).2] at hy
          cases hy
      have hbegins : (Nested.char x px b ++ .char y py .nil).Begins := ⟨x, _, rfl, start⟩
      have hw := hwg (Nested.freeBehind free a) (.inr hbegins) r' (h4 false hrest)
      simpa [hguarded.1] using hw
  | @value u v q ss quote _ ih =>
    have hq : inToken q = false := by
      rcases isQuote_iff.1 quote with rfl | rfl <;> rfl
    obtain ⟨a, r, p₁, rfl, ha, hr₁⟩ := Nested.exists_cut_plain (a := t ++ u)
      (b := v ++ q :: sources ss) hq (by simpa using hr)
    obtain ⟨b, r, p₂, rfl, rfl, hr₂⟩ := Nested.exists_cut_plain hq hr₁
    obtain ⟨r', h1, h2, h3, hseen, h4⟩ := ih (p.insert b.shown).2 (.char q p₂ r) [q]
      (es ++ a.entries ++ (p.issued + 1, b.shown) :: b.entries)
      (fun c hc n hn => hends c hc n (by simp_all)) (by simp [Nested.shown, hr₂])
      ((hp.cons _).trans (by
        refine List.perm_iff_count.2 fun e => ?_
        simp only [Nested.entries_append, Nested.entries, List.count_append, List.count_cons]
        omega))
    refine ⟨a ++ .char q p₁ (.token (p.issued + 1) b r'), ?_, ?_, ?_, fun k => ?_,
      fun free hguarded => ?_⟩
    · simp only [Nested.shown_append, Nested.shown, ha, h1]
      simp [hide, insertAll, insert]
    · simp [Nested.source, h2]
    · simpa [hide, insertAll, Nested.entries] using h3
    · intro z hz
      simp only [Nested.seen_append, Nested.seen, List.mem_append, List.mem_cons] at hz ⊢
      refine hz.imp_right (Or.imp_right fun hz => .inr ?_)
      simpa [Nested.seen] using hseen _ hz
    · simp only [Nested.guarded_append, Nested.Guarded] at hguarded ⊢
      exact ⟨hguarded.1, .inl (by simp [freeAfter, quote]), h4 false hguarded.2.2⟩

/-- Hiding a text without tokens gives a nested text whose spans are the entries of the table. -/
lemma exists_hideAll {source : Text} (h : tokenOpening ∉ source) :
    ∃ r : Nested, r.shown = (empty.hideAll source).1 ∧ r.source = source ∧
      (empty.hideAll source).2.entries.Perm r.entries ∧ r.Guarded false := by
  obtain ⟨r₁, h1, s1, e1, -, g1⟩ := exists_hide (Span.laid_backslashes source) empty
    (Nested.ofText source h) [] [] (by simp [Nested.numbers])
    (by simp [Span.sources_backslashes]) (by simp [empty])
  obtain ⟨r₂, h2, s2, e2, -, g2⟩ := exists_hide (Span.laid_rawText r₁.shown) _ r₁ [] []
    (fun _ hc n _ => hc.outside_token n) (by simp [Span.sources_rawText]) e1
  obtain ⟨r₃, h3, s3, e3, -, g3⟩ := exists_hide (Span.laid_expressions r₂.shown) _ r₂ [] []
    (fun _ hc n _ => hc.outside_token n) (by simp [Span.sources_expressions]) e2
  obtain ⟨r₄, h4, s4, e4, -, g4⟩ := exists_hide (Span.laid_quotedValues r₃.shown) _ r₃ [] []
    (fun _ hc n _ => hc.outside_token n) (by simp [Span.sources_quotedValues]) e3
  simp only [List.nil_append] at h1 h2 h3 h4 e4
  refine ⟨r₄, ?_, ?_, ?_, ?_⟩
  · rw [h4, h3, h2, h1]
    rfl
  · rw [s4, s3, s2, s1, Nested.source_ofText]
  · rw [h3, h2, h1] at e4
    exact e4
  · exact g4 _ (g3 _ (g2 _ (g1 _ (Nested.guarded_of_numbers_eq_nil (by simp [Nested.numbers])))))

/-- A table that has each span of a nested text, and nothing else, once. -/
structure Backs (p : Placeholders) (r : Nested) : Prop where
  holds : p.Holds r
  depth : r.depth ≤ p.size
  once : r.numbers.Nodup
  all : ∀ e ∈ p.entries, e.1 ∈ r.numbers

lemma Numbered.backs {p : Placeholders} {r : Nested} (h : p.Numbered)
    (hp : p.entries.Perm r.entries) : p.Backs r where
  holds _ he := lookup_of_mem h.nodup (hp.mem_iff.2 he)
  depth := r.depth_le_length.trans_eq hp.length_eq.symm
  once := (hp.map Prod.fst).nodup_iff.1 h.nodup
  all _ he := List.mem_map_of_mem (hp.mem_iff.1 he)

/-- What hiding leaves is a nested text over its table, with the template as its source. -/
lemma exists_backs_hideAll {source : Text} (h : tokenOpening ∉ source) :
    ∃ r : Nested, r.shown = (empty.hideAll source).1 ∧ r.source = source ∧
      (empty.hideAll source).2.Backs r := by
  obtain ⟨r, hr, hs, he, -⟩ := exists_hideAll h
  exact ⟨r, hr, hs, (numbered_empty.hideAll source).backs he⟩

lemma Backs.without_numbers {p : Placeholders} {r : Nested} (h : p.Backs r) :
    p.without r.numbers = ⟨[], p.issued⟩ := by
  have he : p.entries.filter (fun e => e.1 ∉ r.numbers) = [] :=
    List.filter_eq_nil_iff.2 fun e hm => by simpa using h.all e hm
  rw [without, he]

lemma Backs.decode {p : Placeholders} {r : Nested} (h : p.Backs r) :
    p.decode r.shown = r.source :=
  decodeWithin_shown h.depth h.holds

lemma Backs.take {p : Placeholders} {r : Nested} (h : p.Backs r) :
    p.take r.shown = (r.source, ⟨[], p.issued⟩) := by
  rw [Placeholders.take, takeWithin_shown h.depth h.holds h.once, h.without_numbers]

/-- Taking what hiding leaves gives the template back and empties the table. -/
lemma take_hideAll {source : Text} (plain : tokenOpening ∉ source) :
    (empty.hideAll source).2.take (empty.hideAll source).1 =
      (source, ⟨[], (empty.hideAll source).2.issued⟩) := by
  obtain ⟨r, hr, hs, hp⟩ := exists_backs_hideAll plain
  rw [← hr, hp.take, hs]

/-- **Round trip.** Decoding what hiding leaves gives the template back, and so does taking,
which empties the table: each entry is resolved, and none twice. -/
theorem resolve_hideAll (source : Text) (plain : tokenOpening ∉ source) :
    let hidden := empty.hideAll source
    hidden.2.decode hidden.1 = source ∧
      hidden.2.take hidden.1 = (source, ⟨[], hidden.2.issued⟩) := by
  obtain ⟨r, hr, hs, hp⟩ := exists_backs_hideAll plain
  constructor
  · rw [← hr, hp.decode, hs]
  · exact take_hideAll plain

/-- A backslash pair within an expression of two rows within a quoted value. -/
theorem resolve_hideAll_deep :
    tokenOpening ∉ ("<a x=\"\x7b\x7b \\\"\n \x7d\x7d\">" : Text) ∧
      let hidden := empty.hideAll "<a x=\"\x7b\x7b \\\"\n \x7d\x7d\">"
      hidden.2.decode hidden.1 = "<a x=\"\x7b\x7b \\\"\n \x7d\x7d\">" ∧
        hidden.2.take hidden.1 =
          ("<a x=\"\x7b\x7b \\\"\n \x7d\x7d\">".toList, ⟨[], hidden.2.issued⟩) :=
  ⟨by decide, resolve_hideAll _ (by decide)⟩

end Placeholders

end HtmlTemplate
