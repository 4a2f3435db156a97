import HtmlTemplate.Proofs.Decimal.Nearest
import HtmlTemplate.Proofs.Decimal.Positional
import HtmlTemplate.Proofs.Decimal.Shortest

/-!
Doubles as templates print them, and what is read back: a double that is not whole itself, and an
integer of 64 bits the double nearest to it.
-/

namespace HtmlTemplate.Double

open Float.Model Float.Model.UnpackedFloat

variable {x : Float}

/-! ### Whole doubles -/

lemma isWhole_iff : isWhole x = true ↔ x.isFinite = true ∧
    (0 ≤ (binary x).exponent ∨ (binary x).mantissa % 2 ^ (-(binary x).exponent).toNat = 0) := by
  rw [isWhole, Bool.and_eq_true, Bool.or_eq_true, decide_eq_true_iff, beq_iff_eq, Nat.one_shiftLeft]

/-- A double is whole if a whole number is among the numbers that round to it: no other number that
near is a multiple of its last place. -/
lemma isWhole_of_contains (hx : x.isFinite = true)
    (hc : Canonical (binary x).mantissa (binary x).exponent) {n : ℕ}
    (hn : (interval (binary x)).Contains n) : isWhole x = true := by
  rw [isWhole_iff]
  refine ⟨hx, ?_⟩
  generalize binary x = b at hc hn ⊢
  obtain ⟨s, m, e⟩ := b
  obtain ⟨hnear, hfar, -⟩ := near_of_contains hc.pos hn
  rcases le_or_gt 0 e with he | he
  · exact .inl he
  · obtain ⟨j, rfl⟩ : ∃ j : ℕ, e = -j := ⟨e.natAbs, by omega⟩
    have hscaled : (n / 2 ^ (-j : ℤ) : ℚ) = (n * 2 ^ j : ℕ) := by
      rw [zpow_neg, div_inv_eq_mul, zpow_natCast]
      push_cast
      rfl
    rw [hscaled] at hnear hfar
    have hle : (2 * m : ℚ) ≤ 2 * (n * 2 ^ j : ℕ) + 1 := by linarith
    have hge : (2 * (n * 2 ^ j : ℕ) : ℚ) ≤ 2 * m + 1 := by linarith
    have hmantissa : m = n * 2 ^ j := by
      norm_cast at hle hge
      omega
    right
    dsimp only
    rw [hmantissa, neg_neg, Int.toNat_natCast, Nat.mul_mod_left]

/-- A whole double has its size as a whole number. -/
lemma exists_nat_of_isWhole (hw : isWhole x = true) : ∃ n : ℕ,
    (n : ℚ) = (binary x).mantissa * 2 ^ (binary x).exponent ∧
      toInt x = if (binary x).negative then -(n : ℤ) else n := by
  rw [isWhole_iff] at hw
  refine ⟨_, ?_, rfl⟩
  generalize binary x = b at hw ⊢
  obtain ⟨s, m, e⟩ := b
  dsimp only at hw ⊢
  split
  · next he =>
    rw [Nat.shiftLeft_eq]
    push_cast
    rw [← zpow_natCast, Int.toNat_of_nonneg he]
  · next he =>
    obtain ⟨j, rfl⟩ : ∃ j : ℕ, e = -j := ⟨e.natAbs, by omega⟩
    have hmod := hw.2.resolve_left he
    rw [neg_neg, Int.toNat_natCast] at hmod
    obtain ⟨q, rfl⟩ := Nat.dvd_of_mod_eq_zero hmod
    rw [neg_neg, Int.toNat_natCast, Nat.shiftRight_eq_div_pow,
      Nat.mul_div_cancel_left q (Nat.two_pow_pos j), zpow_neg, zpow_natCast]
    push_cast
    field_simp

lemma toInt_eq_value (hw : isWhole x = true) : (toInt x : ℚ) = value x := by
  obtain ⟨n, hn, hint⟩ := exists_nat_of_isWhole hw
  rw [hint, value, ← hn]
  split
  · push_cast
    ring
  · push_cast
    ring

/-- Zero is whole. -/
lemma canonical_of_not_isWhole (hx : x.isFinite = true) (hw : isWhole x = false) :
    Canonical (binary x).mantissa (binary x).exponent := by
  rcases unpack_of_isFinite hx with ⟨hzero, -⟩ | ⟨hc, -⟩
  · have hwhole : isWhole x = true := isWhole_iff.2 ⟨hx, .inr (by rw [hzero, Nat.zero_mod])⟩
    rw [hw] at hwhole
    cases hwhole
  · exact hc

/-! ### Doubles with places after the point -/

/-- A double that is not whole is printed as digits on both sides of a point, and what they denote
is among the numbers that round to it. -/
lemma display_of_not_isWhole (hx : x.isFinite = true) (hw : isWhole x = false) : ∃ t u : Text,
    display x = (if (binary x).negative then '-' :: (t ++ '.' :: u) else t ++ '.' :: u) ∧
      t.IsDigits ∧ u.IsDigits ∧
      (interval (binary x)).Contains (Text.digitsValue (t ++ u) * 10 ^ (-(u.length : ℤ))) := by
  have hc := canonical_of_not_isWhole hx hw
  have hcontains := contains_shortest hc .upper
  have hexponent : (shortest .upper x).exponent < 0 := by
    by_contra hle
    obtain ⟨j, hj⟩ := Int.eq_ofNat_of_zero_le (not_lt.1 hle)
    rw [Decimal.value, hj, zpow_natCast] at hcontains
    have hwhole : isWhole x = true :=
      isWhole_of_contains (n := (shortest .upper x).digits * 10 ^ j) hx hc
        (by exact_mod_cast hcontains)
    rw [hw] at hwhole
    cases hwhole
  obtain ⟨t, u, hpositional, ht, hu, hdigits, hlength⟩ := exists_positional hexponent []
  refine ⟨t, u, ?_, ht, hu, ?_⟩
  · rw [display, hw, if_neg Bool.false_ne_true, write, isNaN_of_isFinite hx,
      if_neg Bool.false_ne_true, if_pos hx, ← hpositional]
    rfl
  · rw [hdigits, hlength]
    exact hcontains

/-- A double that is not whole is read back from its text. -/
lemma binary_toFloat_display (hx : x.isFinite = true) (hw : isWhole x = false) :
    (Json.string (display x)).toFloat.isFinite = true ∧
      binary (Json.string (display x)).toFloat = binary x := by
  obtain ⟨t, u, hdisplay, ht, hu, hcontains⟩ := display_of_not_isWhole hx hw
  rw [hdisplay, toFloat_point _ ht hu]
  exact binary_ofDecimal (canonical_of_not_isWhole hx hw) hcontains _

/-! ### Whole numbers -/

/-- The text of an integer is read as a decimal without places. -/
lemma toFloat_signedNumeral (k : ℤ) :
    (Json.string (Text.signedNumeral k)).toFloat = ofDecimal (k < 0) k.natAbs 0 := by
  have hdigits := toFloat_digits (decide (k < 0)) (Text.isDigits_numeral k.natAbs)
  rw [Text.digitsValue_numeral] at hdigits
  rw [← hdigits, Text.signedNumeral]
  simp only [decide_eq_true_eq]

/-- The product of two numbers is a number. -/
lemma isNaN_mul {s s' : Sign} {m n : ℕ} {e k : ℤ} {hm : 0 < m} {hn : 0 < n} :
    (UnpackedFloat.mul Format.binary64 (.finite s m e hm) (.finite s' n k hn)).isNaN = false := by
  unfold UnpackedFloat.mul
  dsimp only
  fun_cases roundWithAccuracy <;> rfl

/-- Every natural number is converted to a number. -/
lemma isNaN_ofNat (n : ℕ) : (Float.ofNat n).isNaN = false := by
  rcases Nat.eq_zero_or_pos n with rfl | hn
  · decide
  change (Float.ofScientific n false 0).isNaN = false
  rw [Float.ofScientific]
  split
  · next hfast =>
    have hindex : 0 < Float.exactlyRepresentablePowersOfTen.size := by decide
    obtain ⟨a, j, ha, hpower, -⟩ := unpack_powersOfTen hindex
    change (pack (UnpackedFloat.mul Format.binary64 n.toUInt64.toFloat.toModel.unpack
      Float.exactlyRepresentablePowersOfTen[0].toModel.unpack)).isNaN = false
    rw [unpack_toFloat hn hfast.1, hpower]
    exact isNaN_pack isNaN_mul
  · have hgreat : ¬ (0 : ℤ) > 2 ^ 11 := by norm_num
    have hsmall : ¬ (0 : ℤ) < -(2 ^ 11 + (n.log2 : ℤ)) := by omega
    change (pack (UnpackedFloat.ofScientific Format.binary64 n 0)).isNaN = false
    rw [UnpackedFloat.ofScientific, dif_neg hn.ne', if_neg hgreat, if_neg hsmall, if_pos le_rfl]
    exact isNaN_pack isNaN_mul

lemma isNaN_ofInt (k : ℤ) : (Float.ofInt k).isNaN = false := by
  cases k with
  | ofNat n => exact isNaN_ofNat n
  | negSucc n =>
    have hnat := isNaN_ofNat (n + 1)
    change (pack (Float.ofNat (n + 1)).toModel.unpack.neg).isNaN = false
    change (Float.ofNat (n + 1)).toModel.unpack.isNaN = false at hnat
    refine isNaN_pack ?_
    cases hu : (Float.ofNat (n + 1)).toModel.unpack with
    | notANumber =>
      rw [hu] at hnat
      cases hnat
    | infinity | zero | finite => rfl

/-- A number equals itself. -/
lemma beq_self (hx : x.isNaN = false) : (x == x) = true := by
  change x.toModel.unpack.isNaN = false at hx
  change x.toModel.unpack.beq x.toModel.unpack = true
  cases hu : x.toModel.unpack with
  | notANumber =>
    rw [hu] at hx
    cases hx
  | infinity s => cases s <;> rfl
  | zero s => rfl
  | finite s m e hm => exact beq_finite_iff.2 ⟨rfl, rfl, rfl⟩

/-- An integer is read as the double nearest to it. -/
lemma ofDecimal_eq_ofInt {k : ℤ} (hk : k.natAbs < 2 ^ 64) :
    ofDecimal (k < 0) k.natAbs 0 = Float.ofInt k := by
  obtain ⟨n, hn⟩ : ∃ n, n = k.natAbs := ⟨_, rfl⟩
  rw [← hn] at hk ⊢
  rcases Nat.eq_zero_or_pos n with h0 | hpos
  · obtain rfl : k = 0 := by omega
    rw [h0]
    decide
  have hlength : (Text.numeral n).length ≤ 20 := by
    by_contra hlong
    have hle := Text.ten_pow_le hpos.ne'
    have hpow : 10 ^ 20 ≤ 10 ^ ((Text.numeral n).length - 1) :=
      Nat.pow_le_pow_right (by norm_num) (by omega)
    omega
  have hplaces : ¬ 400 < (Text.numeral n).length + (0 : ℤ) := by omega
  have hguard : ¬ (n = 0 ∨ (Text.numeral n).length + (0 : ℤ) < -400) := by omega
  rw [ofDecimal, if_neg hguard, if_neg hplaces]
  cases k with
  | ofNat j =>
    rw [hn]
    rfl
  | negSucc j =>
    rw [hn, decide_eq_true (Int.negSucc_lt_zero j)]
    rfl

/-- A whole double is the double nearest to the integer that it is. -/
lemma value_ofDecimal_toInt (hw : isWhole x = true) :
    (ofDecimal (toInt x < 0) (toInt x).natAbs 0).isFinite = true ∧
      value (ofDecimal (toInt x < 0) (toInt x).natAbs 0) = value x := by
  obtain ⟨n, hn, hint⟩ := exists_nat_of_isWhole hw
  rcases unpack_of_isFinite (isWhole_iff.1 hw |>.1) with ⟨hzero, -⟩ | ⟨hc, -⟩
  · have hn0 : n = 0 := by
      rw [hzero, Nat.cast_zero, zero_mul] at hn
      exact_mod_cast hn
    have hint0 : toInt x = 0 := by
      rw [hint, hn0]
      split <;> rfl
    rw [hint0, value_of_mantissa_eq_zero hzero]
    refine ⟨by decide, value_of_mantissa_eq_zero ?_⟩
    decide
  · have hpos := hc.pos
    have hnpos : 0 < n := by
      have hcast : (0 : ℚ) < n := by
        rw [hn]
        positivity
      exact_mod_cast hcast
    have hparts : decide (toInt x < 0) = (binary x).negative ∧ (toInt x).natAbs = n := by
      rw [hint]
      cases (binary x).negative with
      | true => simp [hnpos]
      | false => simp
    have hcontains : (interval (binary x)).Contains (n * 10 ^ (0 : ℤ)) := by
      rw [zpow_zero, mul_one, hn]
      exact contains_self hc
    obtain ⟨hfinite, hbinary⟩ := binary_ofDecimal hc hcontains (binary x).negative
    rw [hparts.1, hparts.2]
    refine ⟨hfinite, ?_⟩
    rw [value, value, hbinary]

end HtmlTemplate.Double
