import HtmlTemplate.Proofs.Markup.Cycles
import HtmlTemplate.Proofs.Markup.Passes
import HtmlTemplate.Proofs.Text.Replace

/-!
What the entries of a template's table refer to.

A pass puts tokens where spans were, and its spans are parts of the text before it. No token comes
about between two others, so a token in a span was either given out before that span was hidden, or
written in the template. Nothing keeps a template from writing the tokens of its own table; where it
writes none of them, entries refer to older ones only, and decoding ends.
-/

namespace HtmlTemplate

namespace Placeholders

variable {p : Placeholders} {m n : Nat} {a b t x source : Text} {rows : List Text} {ss : List Span}

/-! ### Tokens next to each other -/

lemma opening_not_mem_body (n : Nat) : tokenOpening ∉ Text.numeral n ++ [tokenClosing] := by
  rw [List.mem_append, List.mem_singleton, not_or]
  exact ⟨fun h => absurd (Text.isDigit_of_mem_numeral h) (by decide), by decide⟩

/-- Two tokens never overlap. -/
lemma prefix_or_eq_of_token_append {e : Text} (h : token n ++ e = b ++ (token m ++ x)) :
    token n <+: b ∨ b = [] ∧ n = m := by
  cases b with
  | nil => exact .inr ⟨rfl, eq_of_token_append h⟩
  | cons c b =>
    rw [token, List.cons_append, List.cons_append, List.cons.injEq] at h
    obtain ⟨rfl, h⟩ := h
    -- the rest of the first token ends before the next opening character
    obtain ⟨b', rfl, -⟩ := Text.exists_append_of_not_mem (opening_not_mem_body n) h
    exact .inl ⟨b', rfl⟩

/-- A token in a text with another one in it is that one, or stands before or behind it. -/
lemma infix_token_append (h : token n <:+: a ++ (token m ++ x)) :
    token n <:+: a ∨ n = m ∨ token n <:+: x := by
  obtain ⟨s, e, hse⟩ := h
  rw [List.append_assoc] at hse
  rcases List.append_eq_append_iff.1 hse with ⟨b, rfl, hb⟩ | ⟨b, rfl, hb⟩
  · rcases prefix_or_eq_of_token_append hb with hn | ⟨-, rfl⟩
    · exact .inl (hn.isInfix.trans (List.suffix_append s b).isInfix)
    · exact .inr (.inl rfl)
  · rcases prefix_or_eq_of_token_append hb with ⟨c, rfl⟩ | ⟨-, rfl⟩
    · rw [List.append_assoc, List.append_cancel_left_eq] at hb
      exact .inr (.inr ⟨c, e, by rw [hb, List.append_assoc]⟩)
    · exact .inr (.inl rfl)

lemma infix_feed_cons_iff (n : Nat) (t : Text) : token n <:+: '\n' :: t ↔ token n <:+: t :=
  Text.infix_append_iff_of_not_mem (w := ['\n']) (by decide) t

/-! ### One pass -/

lemma issued_le_insertAll (p : Placeholders) (rows : List Text) :
    p.issued ≤ (p.insertAll rows).2.issued := by
  induction rows generalizing p with
  | nil => exact Nat.le_refl _
  | cons row rows ih => exact (Nat.le_succ _).trans (ih (p.insert row).2)

lemma issued_le_hide (p : Placeholders) (ss : List Span) : p.issued ≤ (p.hide ss).2.issued := by
  induction ss generalizing p with
  | nil => exact Nat.le_refl _
  | cons s ss ih =>
    cases s with
    | shown t => exact ih p
    | hidden rows => exact (issued_le_insertAll p rows).trans (ih _)

/-- Among the tokens for rows there are no others. -/
lemma infix_insertAll (hrows : rows ≠ [])
    (h : token n <:+: a ++ (Text.unrows (p.insertAll rows).1 ++ x)) :
    token n <:+: a ∨ n ≤ (p.insertAll rows).2.issued ∨ token n <:+: x := by
  induction rows generalizing p a with
  | nil => exact absurd rfl hrows
  | cons row rows ih =>
    have hnew : p.issued + 1 ≤ (p.insertAll (row :: rows)).2.issued :=
      issued_le_insertAll (p.insert row).2 rows
    cases rows with
    | nil =>
      have h' : token n <:+: a ++ (token (p.issued + 1) ++ x) := by simpa [insertAll] using h
      rcases infix_token_append h' with h' | rfl | h'
      · exact .inl h'
      · exact .inr (.inl hnew)
      · exact .inr (.inr h')
    | cons row' rows =>
      have h' : token n <:+: a ++ (token (p.issued + 1) ++
          ('\n' :: (Text.unrows ((p.insert row).2.insertAll (row' :: rows)).1 ++ x))) := by
        simpa [insertAll] using h
      rcases infix_token_append h' with h' | rfl | h'
      · exact .inl h'
      · exact .inr (.inl hnew)
      · rw [infix_feed_cons_iff] at h'
        rcases ih (p := (p.insert row).2) (a := []) (List.cons_ne_nil _ _) h' with h' | h'
        · exact .inl (h'.trans List.nil_infix)
        · exact .inr h'

/-- A pass shows no token but those it gives out and those that were there. -/
lemma infix_hide (h : token n <:+: a ++ (p.hide ss).1) :
    token n <:+: a ++ Span.sources ss ∨ n ≤ (p.hide ss).2.issued := by
  induction ss generalizing p a with
  | nil => exact .inl h
  | cons s ss ih =>
    cases s with
    | shown t =>
      rw [hide, ← List.append_assoc] at h
      rw [Span.sources_shown, ← List.append_assoc]
      exact ih h
    | hidden rows =>
      rw [Span.sources_hidden]
      cases rows with
      | nil => exact ih h
      | cons row rows =>
        rcases infix_insertAll (List.cons_ne_nil row rows) h with h | h | h
        · exact .inl (h.trans (List.prefix_append _ _).isInfix)
        · exact .inr (h.trans (issued_le_hide _ ss))
        · refine (ih (a := []) h).imp_left fun h => ?_
          rw [← List.append_assoc]
          exact h.trans (List.suffix_append _ _).isInfix

lemma mem_entries_insertAll {e : Nat × Text} (h : e ∈ (p.insertAll rows).2.entries) :
    e ∈ p.entries ∨ p.issued < e.1 ∧ e.2 ∈ rows := by
  induction rows generalizing p with
  | nil => exact .inl h
  | cons row rows ih =>
    rcases ih (p := (p.insert row).2) h with h | ⟨hlt, hrow⟩
    · rcases List.mem_cons.1 h with rfl | h
      · exact .inr ⟨Nat.lt_succ_self _, List.mem_cons_self⟩
      · exact .inl h
    · exact .inr ⟨(Nat.lt_succ_self _).trans hlt, List.mem_cons_of_mem _ hrow⟩

/-- What a pass hides is part of the text before it. -/
lemma mem_entries_hide {e : Nat × Text} (h : e ∈ (p.hide ss).2.entries) :
    e ∈ p.entries ∨ p.issued < e.1 ∧ e.2 <:+: Span.sources ss := by
  induction ss generalizing p with
  | nil => exact .inl h
  | cons s ss ih =>
    cases s with
    | shown t =>
      refine (ih h).imp_right (And.imp_right fun h => ?_)
      exact h.trans (List.suffix_append _ _).isInfix
    | hidden rows =>
      rcases ih (p := (p.insertAll rows).2) h with h | ⟨hlt, hinfix⟩
      · refine (mem_entries_insertAll h).imp_right (And.imp_right fun h => ?_)
        exact (Text.infix_unrows h).trans (List.prefix_append _ _).isInfix
      · exact .inr ⟨(issued_le_insertAll p rows).trans_lt hlt,
          hinfix.trans (List.suffix_append _ _).isInfix⟩

/-! ### All passes -/

/-- The tokens in a text that is being hidden, and in the spans hidden so far, were given out, in
time for the span, or are written in the template. -/
structure Traced (source t : Text) (p : Placeholders) : Prop where
  shown : ∀ n, token n <:+: t → n ≤ p.issued ∨ token n <:+: source
  inside : ∀ e ∈ p.entries, ∀ n, token n <:+: e.2 → n < e.1 ∨ token n <:+: source

namespace Traced

lemma start (source : Text) : Traced source source empty where
  shown := fun _ h => .inr h
  inside := fun _ he => absurd he List.not_mem_nil

lemma hide (h : Traced source t p) (hs : Span.sources ss = t) :
    Traced source (p.hide ss).1 (p.hide ss).2 where
  shown := by
    intro n hn
    rcases infix_hide (a := []) hn with hn | hn
    · rw [List.nil_append, hs] at hn
      exact (h.shown n hn).imp_left fun hle => hle.trans (issued_le_hide p ss)
    · exact .inl hn
  inside := by
    intro e he n hn
    rcases mem_entries_hide he with he | ⟨hlt, hinfix⟩
    · exact h.inside e he n hn
    · rw [hs] at hinfix
      exact (h.shown n (hn.trans hinfix)).imp_left fun hle => hle.trans_lt hlt

lemma hideAll (source : Text) :
    Traced source (empty.hideAll source).1 (empty.hideAll source).2 :=
  ((((start source).hide (Span.sources_backslashes _)).hide (Span.sources_rawText _)).hide
    (Span.sources_expressions _)).hide (Span.sources_quotedValues _)

end Traced

/-- **What hidden spans refer to.** A token inside of a hidden span belongs to an older entry, or
it is written in the template. If the template writes no token of its own table, then decoding and
counting end by themselves on every text. -/
theorem hideAll_refers (source : Text) :
    let p := (empty.hideAll source).2
    (∀ e ∈ p.entries, ∀ n, token n <:+: e.2 → n < e.1 ∨ token n <:+: source) ∧
      ((∀ e ∈ p.entries, ¬ token e.1 <:+: source) → p.Ends) := by
  intro p
  have hinside := (Traced.hideAll source).inside
  refine ⟨hinside, fun unwritten => (Acyclic.of_lt ?_).ends⟩
  intro e he e' he' hrefers
  exact (hinside e he e'.1 (infix_of_mem_pieces hrefers)).resolve_right (unwritten e' he')

/-- A value with a backslash pair, an expression, and a token that its table does not come to. -/
theorem hideAll_refers_value :
    let source : Text := "<a x=\"" ++ token 4 ++ " \\< \x7b\x7b b \x7d\x7d\">"
    let p := (empty.hideAll source).2
    (∀ e ∈ p.entries, ¬ token e.1 <:+: source) ∧
      (3, token 4 ++ " " ++ token 1 ++ " " ++ token 2) ∈ p.entries ∧ p.Ends := by
  intro source p
  have unwritten : ∀ e ∈ p.entries, ¬ token e.1 <:+: source := by decide +kernel
  exact ⟨unwritten, by decide +kernel, (hideAll_refers source).2 unwritten⟩

/-- A template that writes a token of its own table can make an entry refer to a later one, or to
itself; then decoding goes round in a circle. -/
theorem hideAll_refers_written :
    (¬ ∀ source : Text, ∀ e ∈ (empty.hideAll source).2.entries, ∀ n, token n <:+: e.2 →
      n < e.1 ∨ (empty.hideAll source).2.find? n = none) ∧
    ¬ ∀ source : Text, WellFounded (empty.hideAll source).2.Opens := by
  constructor
  · intro h
    have hlater := h ("=\"" ++ token 2 ++ "\" =\"x\"") (1, token 2) (by decide +kernel) 2
      List.infix_rfl
    exact absurd hlater (by decide +kernel)
  · intro h
    have hself : (empty.hideAll ("=\"" ++ token 1 ++ "\"")).2.Opens (token 1) (token 1) :=
      ⟨token 1, by decide +kernel, by decide +kernel⟩
    exact (h _).irrefl.irrefl _ hself

end Placeholders

end HtmlTemplate
