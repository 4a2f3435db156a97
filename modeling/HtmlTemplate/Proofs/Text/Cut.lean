import Mathlib.Data.List.Infix
import HtmlTemplate.Text.Basic

/-!
Searching a text. A cut is found exactly if the text searched for occurs, and it is the first
occurrence that is found.
-/

namespace HtmlTemplate.Text

@[simp] lemma after?_append (p t : Text) : after? p (p ++ t) = some t := by
  induction p with
  | nil => rfl
  | cons a p ih => simp [after?, ih]

lemma cutFrom_eq (p passed t : Text) :
    cutFrom p passed t = (cutFrom p [] t).map fun (a, b) => (passed.reverse ++ a, b) := by
  induction t generalizing passed with
  | nil =>
    by_cases hp : p = [] <;> simp [cutFrom, hp]
  | cons c t ih =>
    unfold cutFrom
    split
    · simp
    · rw [ih (c :: passed), ih [c]]
      cases cutFrom p [] t <;> simp

lemma cut?_nil (p : Text) : cut? p [] = if p = [] then some ([], []) else none := rfl

lemma cut?_cons (p : Text) (c : Char) (t : Text) :
    cut? p (c :: t) = match after? p (c :: t) with
      | some rest => some ([], rest)
      | none => (cut? p t).map fun (a, b) => (c :: a, b) := by
  unfold cut?
  rw [cutFrom]
  cases after? p (c :: t) with
  | some rest => rfl
  | none => exact cutFrom_eq p [c] t

/-- The text before a cut is no longer than the text before any other occurrence. -/
lemma length_le_of_cut? {p t a b a' b' : Text} (h : cut? p t = some (a, b))
    (h' : t = a' ++ p ++ b') : a.length ≤ a'.length := by
  induction t generalizing a a' with
  | nil =>
    rw [cut?_nil] at h
    split at h
    · simp only [Option.some.injEq, Prod.mk.injEq] at h
      simp [← h.1]
    · simp at h
  | cons c t ih =>
    rw [cut?_cons] at h
    split at h
    · simp only [Option.some.injEq, Prod.mk.injEq] at h
      simp [← h.1]
    · next hn =>
      obtain ⟨⟨x, y⟩, hx, he⟩ := Option.map_eq_some_iff.1 h
      simp only [Prod.mk.injEq] at he
      obtain ⟨rfl, rfl⟩ := he
      cases a' with
      | nil =>
        rw [List.nil_append] at h'
        rw [h', after?_append] at hn
        cases hn
      | cons c' a' =>
        simp only [List.cons_append, List.cons.injEq] at h'
        have := ih hx h'.2
        simpa using this

/-- A text that occurs is found. -/
lemma isSome_cut? {p t : Text} (h : p <:+: t) : (cut? p t).isSome := by
  obtain ⟨a, b, rfl⟩ := h
  induction a with
  | nil =>
    cases hp : p with
    | nil =>
      cases b with
      | nil => rfl
      | cons c b => simp [cut?_cons, after?]
    | cons d p =>
      rw [List.nil_append, List.cons_append, cut?_cons, ← List.cons_append, after?_append]
      rfl
  | cons c a ih =>
    rw [List.cons_append, List.cons_append, cut?_cons]
    split
    · rfl
    · simpa using ih

/-- What is found is the first occurrence: without its last character there is none yet. -/
lemma cut?_eq_some_iff {p t a b : Text} {c : Char} :
    cut? (p ++ [c]) t = some (a, b) ↔ t = a ++ (p ++ [c]) ++ b ∧ ¬ p ++ [c] <:+: a ++ p := by
  constructor
  · refine fun h => ⟨(append_cut? h).symm, ?_⟩
    rintro ⟨x, y, hxy⟩
    have ht : t = x ++ (p ++ [c]) ++ (y ++ [c] ++ b) := by
      simp only [← append_cut? h, ← List.append_assoc, ← hxy]
    have hle := length_le_of_cut? h ht
    have hlength := congrArg List.length hxy
    simp only [List.length_append, List.length_singleton] at hlength
    omega
  · rintro ⟨rfl, hfirst⟩
    obtain ⟨⟨a', b'⟩, h⟩ := Option.isSome_iff_exists.1 (isSome_cut? ⟨a, b, rfl⟩)
    have hle := length_le_of_cut? h rfl
    rcases hle.lt_or_eq with hlt | heq
    · have hend : a ++ p <+: a ++ (p ++ [c]) ++ b := ⟨[c] ++ b, by simp⟩
      have hbefore : a' ++ (p ++ [c]) <+: a ++ p :=
        List.prefix_of_prefix_length_le ⟨b', append_cut? h⟩ hend
          (by simp only [List.length_append, List.length_singleton]; omega)
      exact absurd ((List.suffix_append a' _).isInfix.trans hbefore.isInfix) hfirst
    · obtain ⟨hfront, hrest⟩ := List.append_inj (append_cut? h) (by simp [heq])
      rw [h, List.append_cancel_right hfront, hrest]

/-- A character that the front of a text does not hold stands behind that front. -/
lemma exists_append_of_not_mem {x t a b : Text} {c : Char} (hc : c ∉ x)
    (h : x ++ t = a ++ c :: b) : ∃ a', a = x ++ a' ∧ t = a' ++ c :: b := by
  induction x generalizing a with
  | nil => exact ⟨a, rfl, h⟩
  | cons d x ih =>
    rw [List.mem_cons, not_or] at hc
    cases a with
    | nil =>
      simp only [List.cons_append, List.nil_append, List.cons.injEq] at h
      exact absurd h.1.symm hc.1
    | cons e a =>
      simp only [List.cons_append, List.cons.injEq] at h
      obtain ⟨rfl, h⟩ := h
      obtain ⟨a', rfl, ht⟩ := ih hc.2 h
      exact ⟨a', rfl, ht⟩

end HtmlTemplate.Text
