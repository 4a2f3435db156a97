import HtmlTemplate.Proofs.Markup.VoidTags
import HtmlTemplate.Proofs.Text.Replace

/-!
Parts of a tag with whole tokens.

The readers of a tag stop at brackets, blanks, slashes, equals signs and quotes, which no token
holds. So what they cut a tag into has whole tokens of the tag, and decoding it comes to the same
text over every table that holds the tag.
-/

namespace HtmlTemplate

open Text

lemma isSpace_of_inToken {c : Char} (h : inToken c = true) : isSpace c = false := by
  have hends := Segment.endsTagName_of_inToken h
  simp only [Segment.endsTagName, Bool.or_eq_false_iff] at hends
  exact hends.1.1

/-- An ordinary character becomes ordinary ones. -/
lemma exists_lowerFrom_plain {c : Char} (passed : Text) (plain : c ≠ tokenOpening) (t : Text) :
    ∃ low, lowerFrom passed (c :: t) = low ++ lowerFrom (c :: passed) t ∧ tokenOpening ∉ low := by
  obtain ⟨low, hlow, hforms⟩ := exists_lowerFrom_cons passed c t
  refine ⟨low, hlow, ?_⟩
  rcases hforms with rfl | rfl | rfl
  · exact Placeholders.tokenOpening_not_mem_lowerChar plain
  · decide
  · decide

lemma not_mem_lowerFrom {t : Text} (passed : Text) (ht : tokenOpening ∉ t) :
    tokenOpening ∉ lowerFrom passed t := by
  induction t generalizing passed with
  | nil => exact List.not_mem_nil
  | cons c t ih =>
    rw [List.mem_cons, not_or] at ht
    obtain ⟨low, hlow, hplain⟩ := exists_lowerFrom_plain passed (Ne.symm ht.1) t
    rw [hlow, List.mem_append, not_or]
    exact ⟨hplain, ih _ ht.2⟩

namespace Nested

variable {r : Nested} {a b t : Text} {c : Char} {q : Char → Bool} {p p' : Placeholders}

/-- What a text stands for has no tokens. -/
lemma not_mem_source (r : Nested) : tokenOpening ∉ r.source := by
  induction r with
  | nil => exact List.not_mem_nil
  | char c plain r ih =>
    rw [source, List.mem_cons, not_or]
    exact ⟨Ne.symm plain, ih⟩
  | token n i r ihi ih =>
    rw [source, List.mem_append, not_or]
    exact ⟨ihi, ih⟩

/-- A cut at the first character that is not of a kind which no token has. -/
lemma exists_dropWhile (hq : ∀ c, inToken c = true → q c = false) (r : Nested) :
    ∃ r₁ r₂, r = r₁ ++ r₂ ∧ r₁.shown = r.shown.takeWhile q := by
  induction r with
  | nil => exact ⟨nil, nil, rfl, rfl⟩
  | char c plain r ih =>
    obtain ⟨r₁, r₂, rfl, h⟩ := ih
    cases hc : q c with
    | true =>
      refine ⟨char c plain r₁, r₂, rfl, ?_⟩
      rw [shown, shown, h, List.takeWhile_cons_of_pos hc]
    | false =>
      refine ⟨nil, char c plain (r₁ ++ r₂), rfl, ?_⟩
      rw [shown, shown, List.takeWhile_cons_of_neg (by simp [hc])]
  | token n i r _ _ =>
    have hopening : q tokenOpening = false := hq _ rfl
    refine ⟨nil, token n i r, rfl, ?_⟩
    rw [shown, shown, Placeholders.token, List.cons_append,
      List.takeWhile_cons_of_neg (by simp [hopening])]

/-- A text in lower case has the same tokens. -/
lemma exists_lowerFrom (passed : Text) (r : Nested) :
    ∃ s : Nested, s.shown = lowerFrom passed r.shown ∧ s.entries = r.entries := by
  induction r generalizing passed with
  | nil => exact ⟨nil, rfl, rfl⟩
  | char c plain r ih =>
    obtain ⟨low, hlow, htoken⟩ := exists_lowerFrom_plain passed plain r.shown
    obtain ⟨s, hshown, hentries⟩ := ih (c :: passed)
    refine ⟨ofText low htoken ++ s, ?_, ?_⟩
    · rw [shown_append, shown_ofText, hshown, shown, hlow]
    · rw [entries_append, entries_ofText, hentries, entries, List.nil_append]
  | token n i r _ ih =>
    obtain ⟨s, hshown, hentries⟩ := ih ((Placeholders.token n).reverse ++ passed)
    refine ⟨token n i s, ?_, ?_⟩
    · rw [shown, shown, Placeholders.lowerFrom_token, hshown]
    · rw [entries, entries, hentries]

/-- All tokens of `t` are whole, and are tokens of `r`, none more often than there. -/
def Whole (r : Nested) (t : Text) : Prop :=
  ∃ s : Nested, s.shown = t ∧ s.entries.Sublist r.entries

namespace Whole

lemma shown (r : Nested) : r.Whole r.shown := ⟨r, rfl, .refl _⟩

/-! ### Decoding -/

lemma exists_held (h : r.Whole t) (once : r.numbers.Nodup) :
    ∃ s : Nested, s.shown = t ∧ s.numbers.Nodup ∧ ∀ p : Placeholders, p.Holds r → p.Holds s := by
  obtain ⟨s, hshown, hentries⟩ := h
  exact ⟨s, hshown, once.sublist (hentries.map Prod.fst), fun p hp e he =>
    hp e (hentries.subset he)⟩

/-- Decoding leaves no token. -/
lemma not_mem_decode (h : r.Whole t) (once : r.numbers.Nodup) (hp : p.Holds r) :
    tokenOpening ∉ p.decode t := by
  obtain ⟨s, rfl, sonce, hheld⟩ := h.exists_held once
  rw [(hheld p hp).decode sonce]
  exact s.not_mem_source

/-- It does not matter what else a table holds. -/
lemma decode_eq (h : r.Whole t) (once : r.numbers.Nodup) (hp : p.Holds r) (hp' : p'.Holds r) :
    p.decode t = p'.decode t := by
  obtain ⟨s, rfl, sonce, hheld⟩ := h.exists_held once
  rw [(hheld p hp).decode sonce, (hheld p' hp').decode sonce]

lemma get?_eq (h : r.Whole t) (hp : p.Holds r) (hp' : p'.Holds r) : p.get? t = p'.get? t := by
  rw [Placeholders.get?, Placeholders.get?]
  cases hn : Placeholders.number? t with
  | none => rfl
  | some n =>
    obtain rfl := Placeholders.number?_eq_some_iff.1 hn
    obtain ⟨s, hshown, hentries⟩ := h
    -- a text that shows one token is that token
    cases s with
    | nil => cases hshown
    | char c plain s => exact absurd (List.cons.inj hshown).1 plain
    | token m i s =>
      obtain rfl := Placeholders.eq_of_token_append (hshown.trans (List.append_nil _).symm)
      have he : (m, i.shown) ∈ r.entries := hentries.subset List.mem_cons_self
      exact (hp _ he).trans (hp' _ he).symm

/-! ### Cuts -/

lemma lower (h : r.Whole t) : r.Whole t.lower := by
  obtain ⟨s, rfl, hs⟩ := h
  obtain ⟨s', hshown, hentries⟩ := s.exists_lowerFrom []
  exact ⟨s', hshown, hentries ▸ hs⟩

/-- The two sides of a cut that no token crosses. -/
lemma of_split {s₁ s₂ : Nested} (h₁ : s₁.shown = a) (h : (s₁ ++ s₂).shown = a ++ b)
    (hs : (s₁ ++ s₂).entries.Sublist r.entries) : r.Whole a ∧ r.Whole b := by
  rw [shown_append, h₁] at h
  rw [entries_append] at hs
  exact ⟨⟨s₁, h₁, (List.sublist_append_left _ _).trans hs⟩,
    s₂, List.append_cancel_left h, (List.sublist_append_right _ _).trans hs⟩

lemma span (h : r.Whole t)
    (hq : (∀ c, inToken c = true → q c = true) ∨ ∀ c, inToken c = true → q c = false) :
    r.Whole (t.takeWhile q) ∧ r.Whole (t.dropWhile q) := by
  obtain ⟨s, rfl, hs⟩ := h
  obtain ⟨s₁, s₂, rfl, h₁⟩ := hq.elim s.exists_takeWhile s.exists_dropWhile
  exact of_split h₁ List.takeWhile_append_dropWhile.symm hs

/-- A cut before a character that no token holds. -/
lemma before (h : r.Whole (a ++ c :: b)) (hc : inToken c = false) : r.Whole a := by
  obtain ⟨s, hshown, hs⟩ := h
  obtain ⟨s₁, s₂, plain, rfl, h₁, -⟩ := exists_cut_plain hc hshown
  exact (of_split h₁ hshown hs).1

/-- A first character that no token holds may be left out. -/
lemma tail (h : r.Whole (c :: t)) (hc : inToken c = false) : r.Whole t := by
  obtain ⟨s, hshown, hs⟩ := h
  obtain ⟨s₁, s₂, plain, rfl, h₁, rfl⟩ := exists_cut_plain (a := []) hc hshown
  rw [entries_append] at hs
  exact ⟨s₂, rfl, (List.sublist_append_right s₁.entries s₂.entries).trans hs⟩

lemma trimStart (h : r.Whole t) : r.Whole (Text.trimStart t) :=
  (h.span (.inr fun _ => isSpace_of_inToken)).2

/-- An end that no token holds a character of may be left out. -/
lemma of_append (h : r.Whole (a ++ b)) (hb : ∀ c ∈ b, inToken c = false) : r.Whole a := by
  cases b with
  | nil => rwa [List.append_nil] at h
  | cons c b => exact h.before (hb c List.mem_cons_self)

lemma dropEndWhile (h : r.Whole t) (hq : ∀ c, inToken c = true → q c = false) :
    r.Whole (Text.dropEndWhile q t) := by
  have hsplit : Text.dropEndWhile q t ++ (t.reverse.takeWhile q).reverse = t := by
    rw [Text.dropEndWhile, ← List.reverse_append, List.takeWhile_append_dropWhile,
      List.reverse_reverse]
  rw [← hsplit] at h
  refine h.of_append fun c hc => ?_
  have hqc := List.mem_takeWhile_imp (List.mem_reverse.1 hc)
  by_contra hin
  rw [Bool.not_eq_false] at hin
  rw [hq c hin] at hqc
  cases hqc

/-- So may a last character. -/
lemma before? (h : r.Whole t) (hc : inToken c = false) :
    r.Whole ((Text.before? [c] t).getD t) := by
  cases hb : Text.before? [c] t with
  | none => exact h
  | some a =>
    obtain rfl := append_before? hb
    exact h.of_append (by simpa using hc)

end Whole

end Nested

/-! ### Reading tags -/

variable {r : Nested} {p p' : Placeholders} {raw t : Text} {c : Char}

namespace Segment

lemma whole_tagBody (h : r.Whole raw) : r.Whole (tagBody raw) := by
  unfold tagBody
  cases hraw : Text.after? ['<'] raw with
  | none => exact h
  | some body =>
    have happend := append_after? hraw
    subst happend
    exact h.tail rfl

/-- The name of a tag, and what follows it. -/
lemma whole_writtenName (h : r.Whole raw) :
    r.Whole (writtenName raw) ∧ r.Whole ((tagBody raw).dropWhile fun c => !endsTagName c) :=
  (whole_tagBody h).span (.inl fun c hc => by rw [endsTagName_of_inToken hc]; rfl)

end Segment

namespace Attributes

lemma whole_attributePart (h : r.Whole raw) : r.Whole (attributePart raw) := by
  have hbody := (Segment.whole_writtenName h).2
  unfold attributePart
  dsimp only
  split_ifs
  · refine (hbody.dropEndWhile fun c hc => ?_).before? rfl
    by_contra hend
    simp only [Bool.not_eq_false, Bool.or_eq_true, beq_iff_eq] at hend
    rcases hend with (rfl | rfl) | rfl <;> cases hc
  · exact hbody

lemma whole_readValue (h : r.Whole t) : r.Whole (readValue t).1 ∧ r.Whole (readValue t).2 := by
  have hspan {u : Text} (hu : r.Whole u) :=
    hu.span (q := fun c => !isSpace c) (.inl fun c hc => by rw [isSpace_of_inToken hc]; rfl)
  have htrim := h.trimStart
  unfold readValue
  split
  · next hnil => exact ⟨hnil ▸ htrim, hnil ▸ htrim⟩
  · next q u hu =>
    rw [hu] at htrim
    cases hq : Span.isQuote q with
    | true =>
      have hin : inToken q = false := by
        rcases Span.isQuote_iff.1 hq with rfl | rfl <;> rfl
      obtain ⟨hword, hrest⟩ := hspan (htrim.tail hin)
      exact ⟨hword.before? hin, hrest⟩
    | false => exact hspan htrim

lemma endsName_of_inToken (hc : inToken c = true) : endsName c = false := by
  have hne : c ≠ '=' := by
    rintro rfl
    cases hc
  simp [endsName, isSpace_of_inToken hc, hne]

/-- A name, and what follows it. -/
lemma whole_name {u : Text} (h : r.Whole t) (ht : Text.trimStart t = c :: u) (hc : ¬ c = '=') :
    r.Whole (c :: u.takeWhile fun c => !endsName c) ∧ r.Whole (afterName u) := by
  have htrim := h.trimStart
  rw [ht] at htrim
  have hspace : isSpace c = false := by
    have hfirst := List.head?_dropWhile_not isSpace t
    rw [← Text.trimStart, ht] at hfirst
    simpa using hfirst
  have hcut := htrim.span (q := fun c => !endsName c)
    (.inl fun c hc => by rw [endsName_of_inToken hc]; rfl)
  simpa [endsName, hspace, hc, List.takeWhile_cons, List.dropWhile_cons, afterName] using hcut

/-- The names and the values that are read have whole tokens. -/
lemma whole_of_mem_readPairs (h : r.Whole t) :
    ∀ pair ∈ readPairs t, r.Whole pair.1 ∧ r.Whole pair.2 := by
  fun_induction readPairs t with
  | case1 => exact fun _ hpair => nomatch hpair
  | case2 t u ht _ ih =>
    have htrim := h.trimStart
    rw [ht] at htrim
    exact ih (htrim.tail rfl)
  | case3 t c u ht _ hc _ v hv _ ih =>
    have hname := whole_name h ht hc
    have hvalue := hname.2.trimStart
    rw [hv] at hvalue
    obtain ⟨hfirst, hrest⟩ := whole_readValue (hvalue.tail rfl)
    exact List.forall_mem_cons.2 ⟨⟨hname.1, hfirst⟩, ih hrest⟩
  | case4 t c u ht _ hc _ _ ih => exact ih (whole_name h ht hc).2

lemma not_mem_unquoteRefs {v : Text} (hv : tokenOpening ∉ v) :
    tokenOpening ∉ unquoteRefs v := by
  have hfilter (u : Text) : u.filter (· == tokenOpening) = [] ↔ tokenOpening ∉ u := by
    rw [List.filter_eq_nil_iff]
    exact ⟨fun h hm => h _ hm (by simp), fun h c hc hce => h (beq_iff_eq.1 hce ▸ hc)⟩
  rw [← hfilter] at hv ⊢
  rw [unquoteRefs, filter_replace (by decide) (by decide) (by decide),
    filter_replace (by decide) (by decide) (by decide), hv]

/-- The attributes of a tag have no tokens. -/
lemma not_mem_ofTag (h : r.Whole raw) (once : r.numbers.Nodup) (hp : p.Holds r) :
    ∀ a ∈ ofTag p raw, tokenOpening ∉ a.1 ∧ tokenOpening ∉ a.2 := by
  have hpairs := whole_of_mem_readPairs (whole_attributePart h)
  rw [ofTag]
  generalize readPairs (attributePart raw) = pairs at hpairs
  suffices hfold : ∀ as : Attributes, (∀ a ∈ as, tokenOpening ∉ a.1 ∧ tokenOpening ∉ a.2) →
      ∀ a ∈ pairs.foldl (readPair p) as, tokenOpening ∉ a.1 ∧ tokenOpening ∉ a.2 from
    hfold [] (fun a ha => absurd ha List.not_mem_nil)
  induction pairs with
  | nil => exact fun as has => has
  | cons pair pairs ih =>
    obtain ⟨⟨hname, hvalue⟩, hpairs⟩ := List.forall_mem_cons.1 hpairs
    intro as has
    refine ih hpairs _ fun a ha => ?_
    rw [readPair] at ha
    split_ifs at ha
    · rcases Record.eq_or_mem_of_mem_set ha with rfl | ha
      · exact ⟨hname.not_mem_decode once hp, not_mem_unquoteRefs (hvalue.not_mem_decode once hp)⟩
      · exact has a ha
    · exact has a ha

/-- Nor does it matter to them what else a table holds. -/
lemma ofTag_eq (h : r.Whole raw) (once : r.numbers.Nodup) (hp : p.Holds r) (hp' : p'.Holds r) :
    ofTag p raw = ofTag p' raw := by
  have hpairs := whole_of_mem_readPairs (whole_attributePart h)
  rw [ofTag, ofTag]
  refine List.foldl_ext _ _ _ fun as pair hpair => ?_
  obtain ⟨hname, hvalue⟩ := hpairs pair hpair
  dsimp only
  rw [hvalue.get?_eq hp hp', hname.decode_eq once hp hp', hvalue.decode_eq once hp hp']

end Attributes

end HtmlTemplate
