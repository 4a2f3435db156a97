import Mathlib.Tactic.Lemma
import HtmlTemplate.Text.LowerCase
import HtmlTemplate.Text.Space

/-!
The characters of white space. There are so few that what they are not can be checked: none is a
letter or a numeral, and each is its own lower case.
-/

namespace HtmlTemplate.Text

/-- The code points of white space. -/
def spacePoints : List Nat := [
  0x9, 0xA, 0xB, 0xC, 0xD, 0x20, 0x85, 0xA0, 0x1680, 0x2000, 0x2001, 0x2002, 0x2003, 0x2004,
  0x2005, 0x2006, 0x2007, 0x2008, 0x2009, 0x200A, 0x2028, 0x2029, 0x202F, 0x205F, 0x3000]

variable {c : Char}

lemma mem_spacePoints (h : isSpace c = true) : c.toNat ∈ spacePoints := by
  by_cases hblank : c = ' '
  · rw [hblank]
    decide
  · simp only [isSpace, beq_false_of_ne hblank, Bool.false_or, Bool.or_eq_true, Bool.and_eq_true,
      beq_iff_eq, decide_eq_true_eq] at h
    simp only [spacePoints, List.mem_cons, List.not_mem_nil, or_false]
    omega

/-- What holds for each code point of white space holds for white space. -/
lemma of_isSpace {P : Char → Prop} (hall : ∀ n ∈ spacePoints, P (Char.ofNat n))
    (h : isSpace c = true) : P c :=
  Char.ofNat_toNat c ▸ hall _ (mem_spacePoints h)

/-! ### White space above ASCII -/

/-- Whether a range of code points lies between those of white space above ASCII. A range of a table
is compared with its ends, so that the tables are gone through once and not for each point. -/
def spaceFree (first last : Nat) : Bool :=
  0x3000 < first || last < 0x85 || (0xA0 < first && last < 0x1680) ||
  (0x1680 < first && last < 0x2000) || (0x200A < first && last < 0x2028) ||
  (0x2029 < first && last < 0x202F) || (0x202F < first && last < 0x205F) ||
  (0x205F < first && last < 0x3000)

lemma not_mem_of_spaceFree (h : isSpace c = true) (hc : 128 ≤ c.toNat) {first last : Nat}
    (hfree : spaceFree first last = true) : ¬ (first ≤ c.toNat ∧ c.toNat ≤ last) := by
  have hmem := mem_spacePoints h
  simp only [spacePoints, List.mem_cons, List.not_mem_nil, or_false] at hmem
  simp only [spaceFree, Bool.or_eq_true, Bool.and_eq_true, decide_eq_true_eq] at hfree
  omega

lemma spaceFree_letters : ∀ r ∈ alphabeticRanges ++ numericRanges, spaceFree r.1 r.2 = true := by
  decide +kernel

lemma spaceFree_caseRuns : ∀ r ∈ caseRuns, spaceFree r.first r.last = true := by
  decide +kernel

lemma inRanges_eq_false (h : isSpace c = true) (hc : 128 ≤ c.toNat) {ranges : List (Nat × Nat)}
    (hfree : ∀ r ∈ ranges, spaceFree r.1 r.2 = true) : inRanges c.toNat ranges = false := by
  rw [inRanges, List.any_eq_false]
  intro r hr
  rw [Bool.and_eq_true, decide_eq_true_iff, decide_eq_true_iff]
  exact not_mem_of_spaceFree h hc (hfree r hr)

lemma isAlphanumeric_of_isSpace (h : isSpace c = true) : isAlphanumeric c = false := by
  rw [isAlphanumeric]
  split
  · exact of_isSpace (P := fun c => c.isAlphanum = false) (by decide) h
  · next hc =>
    have hletter := inRanges_eq_false h (Nat.not_lt.1 hc) fun r hr =>
      spaceFree_letters r (List.mem_append_left _ hr)
    have hnumeral := inRanges_eq_false h (Nat.not_lt.1 hc) fun r hr =>
      spaceFree_letters r (List.mem_append_right _ hr)
    rw [hletter, hnumeral]
    rfl

lemma lowerChar_of_isSpace (h : isSpace c = true) : c.toNat ≠ 0x3A3 ∧ lowerChar c = [c] := by
  have hpoint := of_isSpace (P := fun c => c.toNat ≠ 0x3A3 ∧ c.toNat ≠ 0x130 ∧ c.toLower = c)
    (by decide) h
  refine ⟨hpoint.1, ?_⟩
  rw [lowerChar]
  split
  · rw [hpoint.2.2]
  · next hc =>
    have hnone : caseRuns.find? (fun r => r.first ≤ c.toNat && c.toNat ≤ r.last &&
        (c.toNat - r.first) % r.step == 0) = none := by
      rw [List.find?_eq_none]
      intro r hr hrun
      rw [Bool.and_eq_true, Bool.and_eq_true, decide_eq_true_iff, decide_eq_true_iff] at hrun
      exact not_mem_of_spaceFree h (Nat.not_lt.1 hc) (spaceFree_caseRuns r hr) hrun.1
    rw [if_neg hpoint.2.1, hnone]

end HtmlTemplate.Text
