import HtmlTemplate.Proofs.Text.Name

/-!
What becomes an ASCII letter in lower case: beyond ASCII only one character does, the Kelvin sign.
No character becomes one of those that stand for themselves only.
-/

namespace HtmlTemplate.Text

/-- The sign of the unit, whose lower case is the letter k. -/
def kelvinSign : Char := Char.ofNat 0x212A

variable {c : Char} {t w : Text}

/-- No run of the table leads down to ASCII but the one of the Kelvin sign, and none leads to a
character that tokens are made of. -/
lemma caseRuns_bounds : ∀ r ∈ caseRuns,
    (r.first = 0x212A ∧ r.last = 0x212A ∨ 128 ≤ r.first + r.shift) ∧
      (r.last + r.shift < 0xE000 ∨ 0xE001 < r.first + r.shift) := by
  decide +kernel

lemma toNat_ofNat (n : Nat) : (Char.ofNat n).toNat = n ∨ (Char.ofNat n).toNat = 0 := by
  by_cases h : n.isValidChar
  · have hvalid : Char.ofNat n = Char.ofNatAux n h := dif_pos h
    exact .inl (congrArg Char.toNat hvalid)
  · exact .inr (congrArg Char.toNat (dif_neg h))

/-- The lower case of a character beyond ASCII. -/
lemma lowerChar_cases (h : 128 ≤ c.toNat) :
    lowerChar c = ['i', Char.ofNat 0x307] ∨ lowerChar c = [c] ∨
      ∃ r ∈ caseRuns, r.first ≤ c.toNat ∧ c.toNat ≤ r.last ∧
        lowerChar c = [Char.ofNat (c.toNat + r.shift).toNat] := by
  unfold lowerChar
  dsimp only
  rw [if_neg (by omega)]
  split
  · exact .inl rfl
  · split
    · next r hr =>
      have hfound := List.find?_some hr
      simp only [Bool.and_eq_true, decide_eq_true_eq] at hfound
      exact .inr (.inr ⟨r, List.mem_of_find?_eq_some hr, hfound.1.1, hfound.1.2, rfl⟩)
    · exact .inr (.inl rfl)

/-- **Only the Kelvin sign comes down to ASCII.** -/
lemma toNat_lt_of_lowerChar (hc : c ≠ kelvinSign) (h : ∀ d ∈ lowerChar c, d.isLower = true) :
    c.toNat < 128 := by
  by_contra hbeyond
  rcases lowerChar_cases (c := c) (by omega) with he | he | ⟨r, hr, hfirst, hlast, he⟩
  · rw [he] at h
    exact absurd (h (Char.ofNat 0x307) (by simp)) (by decide)
  · have hb := bounds_of_isLower (h c (by simp [he]))
    omega
  · have hb := bounds_of_isLower (h _ (by rw [he]; exact List.mem_singleton_self _))
    rcases (caseRuns_bounds r hr).1 with ⟨hk, hk'⟩ | hrun
    · have hn : c.toNat = 0x212A := by omega
      have hkelvin : c = kelvinSign := by rw [kelvinSign, ← hn, Char.ofNat_toNat]
      exact hc hkelvin
    · rcases toNat_ofNat (c.toNat + r.shift).toNat with hn | hn <;> omega

/-- What a character becomes between others: its own lower case, or one of two sigmas. -/
lemma exists_lowerFrom_cons (passed : Text) (c : Char) (t : Text) :
    ∃ low, lowerFrom passed (c :: t) = low ++ lowerFrom (c :: passed) t ∧
      (low = lowerChar c ∨ low = [Char.ofNat 0x3C2] ∨ low = [Char.ofNat 0x3C3]) := by
  refine ⟨_, lowerFrom.eq_2 .., ?_⟩
  split
  · split
    · exact .inr (.inl rfl)
    · exact .inr (.inr rfl)
  · exact .inl rfl

end HtmlTemplate.Text
