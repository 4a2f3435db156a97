import Mathlib.Data.List.Basic
import HtmlTemplate.Text.Basic

/-!
The rows of a text: cutting at line feeds and joining with line feeds undo each other, and a
text either is a single row or has a first row before its first line feed.
-/

namespace HtmlTemplate.Text

lemma rows_nil : rows [] = [[]] := rfl

lemma rows_feed (t : Text) : rows ('\n' :: t) = [] :: rows t := rfl

lemma rows_cons {c : Char} (hc : c ≠ '\n') (t : Text) :
    rows (c :: t) = match rows t with | [] => [[c]] | w :: ws => (c :: w) :: ws := by
  have h : (c == '\n') = false := by simp [hc]
  rw [rows, splitAt, List.foldr_cons, h]
  rfl

lemma rows_ne_nil (t : Text) : rows t ≠ [] := by
  cases t with
  | nil => simp [rows_nil]
  | cons c t =>
    by_cases hc : c = '\n'
    · simp [hc, rows_feed]
    · rw [rows_cons hc]
      split <;> simp

/-- A text without line feeds is one row. -/
lemma rows_of_not_mem {t : Text} (h : '\n' ∉ t) : rows t = [t] := by
  induction t with
  | nil => rfl
  | cons c t ih =>
    simp only [List.mem_cons, not_or] at h
    rw [rows_cons (Ne.symm h.1), ih h.2]

/-- The first row ends at the first line feed. -/
lemma rows_append_feed {a : Text} (h : '\n' ∉ a) (b : Text) :
    rows (a ++ '\n' :: b) = a :: rows b := by
  induction a with
  | nil => rfl
  | cons c a ih =>
    simp only [List.mem_cons, not_or] at h
    rw [List.cons_append, rows_cons (Ne.symm h.1), ih h.2]

@[simp] lemma unrows_singleton (r : Text) : unrows [r] = r := by
  simp [unrows, joinWith]

@[simp] lemma unrows_cons_cons (r s : Text) (rs : List Text) :
    unrows (r :: s :: rs) = r ++ '\n' :: unrows (s :: rs) := by
  simp [unrows, joinWith]

/-- Each row is part of the text. -/
lemma infix_unrows {r : Text} {rs : List Text} (h : r ∈ rs) : r <:+: unrows rs := by
  induction rs with
  | nil => cases h
  | cons s rs ih =>
    cases rs with
    | nil =>
      obtain rfl := List.mem_singleton.1 h
      exact ⟨[], [], by simp⟩
    | cons s' rs =>
      rw [unrows_cons_cons]
      rcases List.mem_cons.1 h with rfl | h
      · exact (List.prefix_append _ _).isInfix
      · exact (ih h).trans ((List.suffix_cons _ _).trans (List.suffix_append _ _)).isInfix

/-- What holds for single rows, and carries over from a text to a row put before it, holds for
all texts. -/
lemma rows_induction {P : Text → Prop} (single : ∀ t, '\n' ∉ t → P t)
    (feed : ∀ a b, '\n' ∉ a → P b → P (a ++ '\n' :: b)) (t : Text) : P t := by
  by_cases h : '\n' ∈ t
  · obtain ⟨a, b, rfl, ha⟩ := List.eq_append_cons_of_mem h
    exact feed a b ha (rows_induction single feed b)
  · exact single t h
termination_by t.length
decreasing_by grind

lemma unrows_rows (t : Text) : unrows (rows t) = t := by
  induction t with
  | nil => rfl
  | cons c t ih =>
    obtain ⟨w, ws, hw⟩ := List.exists_cons_of_ne_nil (rows_ne_nil t)
    rw [hw] at ih
    by_cases hc : c = '\n'
    · rw [hc, rows_feed, hw, unrows_cons_cons, ih, List.nil_append]
    · rw [rows_cons hc, hw]
      cases ws with
      | nil => simp_all
      | cons x xs => simp_all

end HtmlTemplate.Text
