import HtmlTemplate.Engine
import HtmlTemplate.Proofs.Text.Numeral
import HtmlTemplate.Proofs.Text.Replace

/-!
What happens to a text on its way out.

Escaping leaves no bracket, and neither makes nor breaks an occurrence of a text that holds none.
The last replacements leave a text as it is exactly if it has none of their marks, and only reach
what could be part of one.
-/

namespace HtmlTemplate

variable {c : Char} {p t : Text}

/-! ### Escaping -/

lemma escapeMarkup_cons (c : Char) (t : Text) :
    escapeMarkup (c :: t) = escapeMarkupChar c ++ escapeMarkup t := rfl

lemma escapeMarkupChar_of_ne (hopen : c ≠ '<') (hclose : c ≠ '>') : escapeMarkupChar c = [c] := by
  rw [escapeMarkupChar, if_neg hopen, if_neg hclose]

lemma exists_escapeMarkupChar (h : c = '<' ∨ c = '>') :
    ∃ u, escapeMarkupChar c = '&' :: u ∧ '&' :: u ⊆ ("&lgt;" : Text) := by
  rcases h with rfl | rfl
  · exact ⟨"lt;", rfl, by decide⟩
  · exact ⟨"gt;", rfl, by decide⟩

lemma prefix_escapeMarkup_iff (hp : ∀ d ∈ p, d ∉ ['&', '<', '>']) :
    p <+: escapeMarkup t ↔ p <+: t := by
  induction t generalizing p with
  | nil => rfl
  | cons c t ih =>
    cases p with
    | nil => simp
    | cons d p =>
      obtain ⟨hd, hp⟩ := List.forall_mem_cons.1 hp
      simp only [List.mem_cons, List.not_mem_nil, or_false, not_or] at hd
      rw [escapeMarkup_cons, List.cons_prefix_cons]
      by_cases hbracket : c = '<' ∨ c = '>'
      · obtain ⟨u, hu, -⟩ := exists_escapeMarkupChar hbracket
        rw [hu, List.cons_append, List.cons_prefix_cons]
        refine iff_of_false (fun h => hd.1 h.1) fun h => ?_
        rcases hbracket with rfl | rfl
        · exact hd.2.1 h.1
        · exact hd.2.2 h.1
      · rw [not_or] at hbracket
        rw [escapeMarkupChar_of_ne hbracket.1 hbracket.2, List.singleton_append,
          List.cons_prefix_cons, ih hp]

/-- A text that holds no bracket, and begins with no character of a reference to one, is found in
an escaped text where it is found in the text. -/
lemma infix_escapeMarkup_iff (hc : c ∉ ("&lgt;" : Text)) (hp : ∀ d ∈ c :: p, d ∉ ['&', '<', '>']) :
    c :: p <:+: escapeMarkup t ↔ c :: p <:+: t := by
  induction t with
  | nil => rfl
  | cons d t ih =>
    by_cases hbracket : d = '<' ∨ d = '>'
    · obtain ⟨u, hu, hsub⟩ := exists_escapeMarkupChar hbracket
      have hd : c ∉ [d] := by
        intro h
        obtain rfl := List.mem_singleton.1 h
        exact hp c List.mem_cons_self (List.mem_cons_of_mem _ (by simpa using hbracket))
      rw [escapeMarkup_cons, hu, Text.infix_append_iff_of_not_mem fun h => hc (hsub h), ih]
      exact (Text.infix_append_iff_of_not_mem hd t).symm
    · rw [not_or] at hbracket
      rw [List.infix_cons_iff, ← ih, ← prefix_escapeMarkup_iff hp, escapeMarkup_cons,
        escapeMarkupChar_of_ne hbracket.1 hbracket.2, List.singleton_append, List.infix_cons_iff]

/-! ### The last replacements -/

lemma filter_at_numeral (n : Nat) : (Text.numeral n).filter (· == '@') = [] := by
  refine List.filter_eq_nil_iff.2 fun c hc => ?_
  have hdigit := Text.isDigit_of_mem_numeral hc
  intro hat
  rw [eq_of_beq hat] at hdigit
  cases hdigit

/-- What cannot be part of a mark is not replaced. -/
lemma finishOutput_between {a b : Text} (ha : ∀ c ∈ a, c ∉ ("@\x7b\x7d" : Text))
    (hb : ∀ c ∈ b, c ∉ ("@\x7b\x7d" : Text)) (elapsed : Nat) (t : Text) :
    finishOutput elapsed (a ++ t ++ b) = a ++ finishOutput elapsed t ++ b := by
  have hnot : ∀ c ∈ ("@\x7b\x7d" : Text), c ∉ a ∧ c ∉ b :=
    fun c hc => ⟨fun hm => ha c hm hc, fun hm => hb c hm hc⟩
  have hat := hnot '@' (by decide)
  have hopen := hnot '{' (by decide)
  have hclose := hnot '}' (by decide)
  have htime : timestampMark = '@' :: ('{' :: "timestamp" ++ ['}']) ++ ['@'] := by decide
  rw [finishOutput, restoreBraces, htime, Text.replaceFirst_between hat.1 hat.2,
    show literalOpenBraces = '{' :: ['!'] ++ ['{'] from rfl,
    Text.replace_between hopen.1 hopen.2,
    show literalCloseBraces = '}' :: ['!'] ++ ['}'] from rfl,
    Text.replace_between hclose.1 hclose.2]
  rfl

/-- The time of rendering takes two characters away that nothing brings back. -/
lemma finishOutput_ne_of_timestamp {elapsed : Nat} (h : timestampMark <:+: t) :
    finishOutput elapsed t ≠ t := by
  obtain ⟨⟨a, b⟩, hcut⟩ := Option.isSome_iff_exists.1 (Text.isSome_cut? h)
  have hfirst : Text.replaceFirst timestampMark (Text.numeral elapsed) t =
      a ++ Text.numeral elapsed ++ b := by
    rw [Text.replaceFirst, hcut]
  intro heq
  have hcount := congrArg (fun u => (u.filter (· == '@')).length) heq
  have hbraces (u : Text) : (restoreBraces u).filter (· == '@') = u.filter (· == '@') := by
    rw [restoreBraces, Text.filter_replace (by decide) (by decide) (by decide),
      Text.filter_replace (by decide) (by decide) (by decide)]
  rw [finishOutput, hfirst, ← Text.append_cut? hcut] at hcount
  simp only [hbraces, List.filter_append, filter_at_numeral, List.length_append,
    List.length_nil] at hcount
  have htwo : (timestampMark.filter (· == '@')).length = 2 := by decide
  omega

/-- Restoring braces makes a text shorter. -/
lemma restoreBraces_ne_of_braces (h : literalOpenBraces <:+: t ∨ literalCloseBraces <:+: t) :
    restoreBraces t ≠ t := by
  have hlt : (restoreBraces t).length < t.length := by
    by_cases hopen : literalOpenBraces <:+: t
    · exact Nat.lt_of_le_of_lt (Text.length_replace_le (by decide) (by decide) _)
        (Text.length_replace_lt (by decide) hopen)
    · rw [restoreBraces, Text.replace_of_not_infix hopen]
      exact Text.length_replace_lt (by decide) (h.resolve_left hopen)
  intro heq
  rw [heq] at hlt
  exact Nat.lt_irrefl _ hlt

/-- **The last replacements leave a text as it is** exactly if it has none of their marks. -/
theorem finishOutput_eq_self_iff {elapsed : Nat} :
    finishOutput elapsed t = t ↔
      ∀ mark ∈ [timestampMark, literalOpenBraces, literalCloseBraces], ¬ mark <:+: t := by
  simp only [List.forall_mem_cons, List.not_mem_nil, false_implies, implies_true, and_true]
  by_cases htime : timestampMark <:+: t
  · exact iff_of_false (finishOutput_ne_of_timestamp htime) fun h => h.1 htime
  · rw [finishOutput, Text.replaceFirst_of_not_infix htime]
    constructor
    · intro h
      exact ⟨htime, fun hopen => restoreBraces_ne_of_braces (.inl hopen) h,
        fun hclose => restoreBraces_ne_of_braces (.inr hclose) h⟩
    · rintro ⟨-, hopen, hclose⟩
      rw [restoreBraces, Text.replace_of_not_infix hopen, Text.replace_of_not_infix hclose]

end HtmlTemplate
