import HtmlTemplate.Proofs.Text.Cut
import HtmlTemplate.Text.Space

/-!
Both ends of a text: what it begins and ends with, and what is taken off there up to a character
where that stops.
-/

namespace HtmlTemplate.Text

variable {p t w : Text} {c d : Char} {q : Char → Bool}

lemma startsWith_iff : startsWith t p = true ↔ p <+: t := by
  unfold startsWith
  constructor
  · intro h
    obtain ⟨rest, hrest⟩ := Option.isSome_iff_exists.1 h
    exact ⟨rest, append_after? hrest⟩
  · rintro ⟨rest, rfl⟩
    rw [after?_append]
    rfl

lemma endsWith_iff : endsWith t p = true ↔ p <:+ t := by
  rw [endsWith, startsWith_iff, List.reverse_prefix]

lemma takeWhile_append_cons (hw : ∀ d ∈ w, q d = true) (hc : q c = false) :
    (w ++ c :: t).takeWhile q = w := by
  rw [List.takeWhile_append_of_pos hw, List.takeWhile_cons_of_neg (by simp [hc]), List.append_nil]

lemma dropWhile_append_cons (hw : ∀ d ∈ w, q d = true) (hc : q c = false) :
    (w ++ c :: t).dropWhile q = c :: t := by
  rw [List.dropWhile_append_of_pos hw, List.dropWhile_cons_of_neg (by simp [hc])]

lemma trimStart_cons (hc : isSpace c = false) (t : Text) : trimStart (c :: t) = c :: t :=
  dropWhile_append_cons (w := []) (by simp) hc

lemma before?_append (p t : Text) : before? p (t ++ p) = some t := by
  rw [before?, List.reverse_append, after?_append, Option.map_some, List.reverse_reverse]

lemma append_before? {a : Text} (h : before? p t = some a) : a ++ p = t := by
  rw [before?, Option.map_eq_some_iff] at h
  obtain ⟨x, hx, rfl⟩ := h
  rw [← List.reverse_reverse p, ← List.reverse_append, append_after? hx, List.reverse_reverse]

lemma before?_eq_none_iff : before? p t = none ↔ ¬ p <:+ t := by
  constructor
  · rintro h ⟨a, rfl⟩
    rw [before?_append] at h
    cases h
  · intro h
    cases hb : before? p t with
    | none => rfl
    | some a => exact absurd ⟨a, append_before? hb⟩ h

lemma not_suffix_singleton (h : c ≠ d) : ¬ [c] <:+ t ++ [d] := by
  rintro ⟨a, ha⟩
  exact h (by simpa using congrArg List.getLast? ha)

lemma dropEndWhile_append_pos (t : Text) (hc : q c = true) :
    dropEndWhile q (t ++ [c]) = dropEndWhile q t := by
  simp [dropEndWhile, hc]

lemma dropEndWhile_append_neg (t : Text) (hc : q c = false) :
    dropEndWhile q (t ++ [c]) = t ++ [c] := by
  simp [dropEndWhile, hc]

/-- What is taken off at the end does not reach behind a character where that stops. -/
lemma exists_dropEndWhile (ht : t = [] ∨ ∃ u d, q d = false ∧ t = u ++ [d]) (w : Text) :
    ∃ w', w' <+: w ∧ dropEndWhile q (t ++ w) = t ++ w' := by
  induction w using List.reverseRecOn with
  | nil =>
    refine ⟨[], List.prefix_refl _, ?_⟩
    rcases ht with rfl | ⟨u, d, hd, rfl⟩
    · rfl
    · rw [List.append_nil, dropEndWhile_append_neg u hd]
  | append_singleton w c ih =>
    rw [← List.append_assoc]
    cases hc : q c with
    | true =>
      obtain ⟨w', hw', h⟩ := ih
      exact ⟨w', hw'.trans (List.prefix_append _ _), by rw [dropEndWhile_append_pos _ hc, h]⟩
    | false =>
      refine ⟨w ++ [c], List.prefix_refl _, ?_⟩
      rw [dropEndWhile_append_neg _ hc, List.append_assoc]

end HtmlTemplate.Text
