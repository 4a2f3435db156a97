import HtmlTemplate.Decimal.Reading
import HtmlTemplate.Proofs.Decimal.Packing
import HtmlTemplate.Proofs.Text.Numeral

/-!
Decimals as doubles. A decimal is converted by one product or quotient of exact factors, so it is
rounded once: whatever lies among the numbers that round to a double is read as that double.
-/

namespace HtmlTemplate.Double

open Float.Model Float.Model.UnpackedFloat

variable {m : ℕ} {e : ℤ} {s : Bool} {v : ℚ}

/-- Whatever rounds to a double is neither too small nor too great for one. -/
lemma bounds_of_contains (hc : Canonical m e) (hv : (interval ⟨s, m, e⟩).Contains v) :
    2 ^ (-1075 : ℤ) ≤ v ∧ v < 2 ^ (1024 : ℤ) := by
  have hleast := hc.least_le
  have hmost := hc.le
  have hm : (1 : ℚ) ≤ m := by exact_mod_cast hc.pos
  obtain ⟨hnear, -, -⟩ := near_of_contains hc.pos hv
  rw [le_div_iff₀ (by positivity)] at hnear
  constructor
  · calc (2 : ℚ) ^ (-1075 : ℤ) ≤ 2 ^ (e - 1) := zpow_le_zpow_right₀ one_le_two (by omega)
      _ = 1 / 2 * 2 ^ e := by
          rw [zpow_sub₀ two_ne_zero, zpow_one]
          ring
      _ ≤ (m - 1 / 2) * 2 ^ e := mul_le_mul_of_nonneg_right (by linarith) (by positivity)
      _ ≤ v := hnear
  · exact (lt_two_pow_of_contains hc hv).trans_le (zpow_le_zpow_right₀ one_le_two (by omega))

lemma contains_self (hc : Canonical m e) : (interval ⟨s, m, e⟩).Contains (m * 2 ^ e) := by
  have hcancel : (m * 2 ^ e / 2 ^ e : ℚ) = m := mul_div_cancel_right₀ _ (by positivity)
  rw [contains_interval_iff hc.pos, hcancel]
  have hlow : (if m = 2 ^ 52 ∧ -1074 < e then (m : ℚ) - 1 / 4 else m - 1 / 2) < m := by
    split <;> linarith
  dsimp only
  split
  · exact ⟨hlow.le, by linarith⟩
  · exact ⟨hlow, by linarith⟩

/-! ### Products and quotients -/

/-- A product with bits enough is rounded once. -/
lemma mul_of_contains (hc : Canonical m e) {m₁ m₂ : ℕ} {e₁ e₂ : ℤ} (h₁ : 0 < m₁) (h₂ : 0 < m₂)
    (hbits : 2 ^ 52 ≤ m₁ * m₂) (hv : (interval ⟨s, m, e⟩).Contains (m₁ * 2 ^ e₁ * (m₂ * 2 ^ e₂))) :
    UnpackedFloat.mul Format.binary64 (.finite .positive m₁ e₁ h₁) (.finite .positive m₂ e₂ h₂) =
      .finite .positive m e hc.pos := by
  have hlog : 52 ≤ (m₁ * m₂).log2 := (Nat.le_log2 (Nat.mul_pos h₁ h₂).ne').2 hbits
  have hvalue : (m₁ * 2 ^ e₁ * (m₂ * 2 ^ e₂) : ℚ) = (m₁ * m₂ : ℕ) * 2 ^ (e₁ + e₂) := by
    rw [zpow_add₀ (by norm_num)]
    push_cast
    ring
  rw [hvalue] at hv
  have hdescribes : Describes (.ofMantissaAndAccuracy (m₁ * m₂) .exact) (m₁ * m₂ : ℕ) :=
    .exact (m₁ * m₂)
  refine roundWithAccuracy_of_contains hc hdescribes ?_ hv .positive
  rw [targetExponent_eq, totalExponent]
  omega

/-- A quotient is rounded once: as many bits of it are computed as a double holds. -/
lemma div_of_contains (hc : Canonical m e) {m₁ m₂ : ℕ} {e₁ e₂ : ℤ} (h₁ : 0 < m₁) (h₂ : 0 < m₂)
    (hv : (interval ⟨s, m, e⟩).Contains (m₁ * 2 ^ e₁ / (m₂ * 2 ^ e₂))) :
    UnpackedFloat.div Format.binary64 (.finite .positive m₁ e₁ h₁) (.finite .positive m₂ e₂ h₂) =
      .finite .positive m e hc.pos := by
  obtain ⟨k, hk⟩ : ∃ k, k = min (e₁ - e₂)
    (Format.binary64.targetExponent (totalExponent m₁ e₁ - totalExponent m₂ e₂)) := ⟨_, rfl⟩
  obtain ⟨a, ha⟩ : ∃ a, a = m₁ <<< (e₁ - e₂ - k).toNat := ⟨_, rfl⟩
  have hdiv : UnpackedFloat.div Format.binary64 (.finite .positive m₁ e₁ h₁)
      (.finite .positive m₂ e₂ h₂) =
      roundWithAccuracy Format.binary64 .positive (a / m₂) k (accuracyOfFraction (a % m₂) m₂) := by
    rw [ha, hk]
    rfl
  have hvalue : (m₁ * 2 ^ e₁ / (m₂ * 2 ^ e₂) : ℚ) = a / m₂ * 2 ^ k := by
    have hshift : (a : ℚ) = m₁ * 2 ^ (e₁ - e₂ - k) := by
      rw [ha, Nat.shiftLeft_eq]
      push_cast
      rw [← zpow_natCast, Int.toNat_of_nonneg (by omega)]
    rw [hshift, zpow_sub₀ (by norm_num), zpow_sub₀ (by norm_num)]
    field_simp
  rw [hdiv]
  rw [hvalue] at hv
  have hdescribes := describes_quotient a h₂
  refine roundWithAccuracy_of_contains hc hdescribes ?_ hv .positive
  -- The quotient is more than `2 ^ (t - 1)`, where `t` is the difference of the two magnitudes.
  have hbelow : 2 ^ (totalExponent m₁ e₁ - 1 - totalExponent m₂ e₂) ≤ (a / m₂ * 2 ^ k : ℚ) := by
    have hle := two_pow_totalExponent_le h₁.ne' le_rfl e₁
    have hlt := lt_two_pow_totalExponent (lt_add_one (m₂ : ℚ)) e₂
    rw [← hvalue, zpow_sub₀ (by norm_num)]
    exact div_le_div₀ (by positivity) hle (by positivity) hlt.le
  have habove : (a / m₂ * 2 ^ k : ℚ) < 2 ^ totalExponent (a / m₂) k := by
    refine lt_two_pow_totalExponent ?_ k
    rw [div_lt_iff₀ (by exact_mod_cast h₂)]
    exact_mod_cast Nat.lt_mul_of_div_lt (Nat.lt_succ_self _) h₂
  have hexp := lt_of_two_pow hbelow habove
  rw [targetExponent_eq] at hk ⊢
  omega

/-! ### Exact doubles -/

/-- A whole number of at most 53 bits has a mantissa and an exponent. -/
lemma canonical_of_lt {d : ℕ} (hpos : 0 < d) (hlt : d < 2 ^ 53) :
    Canonical (d * 2 ^ (52 - d.log2)) (d.log2 - 52) := by
  have hlog : d.log2 < 53 := (Nat.log2_lt hpos.ne').2 hlt
  have hlow : 2 ^ d.log2 * 2 ^ (52 - d.log2) = 2 ^ 52 := by
    rw [← pow_add, show d.log2 + (52 - d.log2) = 52 by omega]
  have hhigh : 2 ^ (d.log2 + 1) * 2 ^ (52 - d.log2) = 2 ^ 53 := by
    rw [← pow_add, show d.log2 + 1 + (52 - d.log2) = 53 by omega]
  refine ⟨Nat.mul_pos hpos (Nat.two_pow_pos _), ?_, by omega, by omega, .inr ?_⟩
  · rw [← hhigh]
    exact Nat.mul_lt_mul_of_pos_right Nat.lt_log2_self (Nat.two_pow_pos _)
  · rw [← hlow]
    exact Nat.mul_le_mul_right _ (Nat.log2_self_le hpos.ne')

lemma value_of_lt {d : ℕ} (hpos : 0 < d) (hlt : d < 2 ^ 53) :
    ((d * 2 ^ (52 - d.log2) : ℕ) : ℚ) * 2 ^ (d.log2 - 52 : ℤ) = d := by
  have hlog : d.log2 < 53 := (Nat.log2_lt hpos.ne').2 hlt
  push_cast
  rw [mul_assoc, ← zpow_natCast, ← zpow_add₀ (by norm_num), Nat.cast_sub (by omega)]
  simp

/-- A whole number of at most 53 bits is a double. -/
lemma unpack_toFloat {d : ℕ} (hpos : 0 < d) (hlt : d < 2 ^ 53) :
    d.toUInt64.toFloat.toModel.unpack =
      .finite .positive (d * 2 ^ (52 - d.log2)) (d.log2 - 52) (canonical_of_lt hpos hlt).pos := by
  have hc := canonical_of_lt hpos hlt
  have hlog : d.log2 < 53 := (Nat.log2_lt hpos.ne').2 hlt
  have hmodel : d.toUInt64.toFloat.toModel =
      pack (UnpackedFloat.round Format.binary64 .positive d 0) := by
    have hnat : d.toUInt64.toNat = d := by
      rw [UInt64.toNat_ofNat', Nat.mod_eq_of_lt (by omega)]
    have hcompare : compare (d : ℤ) 0 = .gt := by
      rw [Int.compare_eq_gt]
      omega
    change pack (UnpackedFloat.normalize Format.binary64 (d.toUInt64.toNat : ℤ) 0 .positive) = _
    rw [hnat, UnpackedFloat.normalize, hcompare]
    rfl
  have hround : UnpackedFloat.round Format.binary64 .positive d 0 =
      roundWithAccuracy Format.binary64 .positive (d * 2 ^ (52 - d.log2)) (d.log2 - 52) .exact := by
    have hshift : (0 - Format.binary64.targetExponent (totalExponent d 0)).toNat = 52 - d.log2 := by
      rw [targetExponent_eq, totalExponent]
      omega
    simp only [UnpackedFloat.round, decreaseExponent, hshift, Nat.shiftLeft_eq]
    congr 1
    omega
  have hexact : Describes (.ofMantissaAndAccuracy (d * 2 ^ (52 - d.log2)) .exact)
      (d * 2 ^ (52 - d.log2) : ℕ) := .exact _
  rw [hmodel, hround, roundWithAccuracy_of_contains (s := false) hc hexact
    hc.targetExponent_eq.ge (contains_self hc) .positive, unpack_pack hc]

lemma powersOfTen_exact : ∀ k : Fin Float.exactlyRepresentablePowersOfTen.size,
    let x := Float.exactlyRepresentablePowersOfTen[k]
    x.isFinite = true ∧ (binary x).negative = false ∧ 0 < (binary x).mantissa ∧
      (binary x).mantissa * 2 ^ (binary x).exponent.toNat =
        10 ^ (k : ℕ) * 2 ^ (-(binary x).exponent).toNat := by
  decide

/-- The first powers of ten are doubles. -/
lemma unpack_powersOfTen {k : ℕ} (hk : k < Float.exactlyRepresentablePowersOfTen.size) :
    ∃ (n : ℕ) (j : ℤ) (hn : 0 < n),
      Float.exactlyRepresentablePowersOfTen[k].toModel.unpack = .finite .positive n j hn ∧
        (n : ℚ) * 2 ^ j = 10 ^ k := by
  obtain ⟨hfinite, hsign, hpos, hvalue⟩ := powersOfTen_exact ⟨k, hk⟩
  obtain ⟨x, hx⟩ : ∃ x, x = Float.exactlyRepresentablePowersOfTen[k] := ⟨_, rfl⟩
  simp only [Fin.getElem_fin, ← hx] at hfinite hsign hpos hvalue
  rw [← hx]
  rcases unpack_of_isFinite hfinite with ⟨hzero, -⟩ | ⟨hc, hunpack⟩
  · omega
  · refine ⟨(binary x).mantissa, (binary x).exponent, hpos, ?_, ?_⟩
    · rw [hunpack, hsign]
      rfl
    · rw [zpow_eq_div (by norm_num), ← mul_div_assoc, div_eq_iff (by positivity)]
      exact_mod_cast hvalue

/-! ### Reading -/

/-- Powers of ten against powers of two. -/
lemma zpow_ten_bounds (k : ℤ) :
    (0 ≤ k → (2 : ℚ) ^ (3 * k) ≤ 10 ^ k) ∧ (k ≤ 0 → (10 : ℚ) ^ k ≤ 2 ^ (3 * k)) := by
  have hcube : (2 : ℚ) ^ (3 * k) = 8 ^ k := by
    rw [zpow_mul]
    norm_num
  rw [hcube]
  obtain ⟨n, rfl | rfl⟩ := k.eq_nat_or_neg
  · refine ⟨fun _ => ?_, fun hn => ?_⟩
    · rw [zpow_natCast, zpow_natCast]
      exact pow_le_pow_left₀ (by norm_num) (by norm_num) n
    · obtain rfl : n = 0 := by omega
      norm_num
  · refine ⟨fun hn => ?_, fun _ => ?_⟩
    · obtain rfl : n = 0 := by omega
      norm_num
    · rw [zpow_neg, zpow_neg, zpow_natCast, zpow_natCast]
      exact inv_anti₀ (by positivity) (pow_le_pow_left₀ (by norm_num) (by norm_num) n)

lemma ne_zero_of_contains (hc : Canonical m e) {d : ℕ} {k : ℤ}
    (hv : (interval ⟨s, m, e⟩).Contains (d * 10 ^ k)) : d ≠ 0 := by
  rintro rfl
  have hmin := (bounds_of_contains hc hv).1
  rw [Nat.cast_zero, zero_mul] at hmin
  exact absurd hmin (not_le.2 (by positivity))

/-- The value of a decimal with its exponent on either side of the point. -/
lemma mul_zpow_natAbs (d : ℕ) (k : ℤ) :
    (k < 0 → (d * 10 ^ k : ℚ) = d / 10 ^ k.natAbs) ∧
      (0 ≤ k → (d * 10 ^ k : ℚ) = d * 10 ^ k.natAbs) := by
  obtain ⟨n, rfl | rfl⟩ := k.eq_nat_or_neg
  · exact ⟨by omega, fun _ => by simp⟩
  · exact ⟨fun _ => by simp [div_eq_mul_inv], fun hn => by simp [show n = 0 by omega]⟩

/-- Both the digits and the power of ten are doubles, and one operation rounds. -/
lemma unpack_ofScientific_of_lt (hc : Canonical m e) {d : ℕ} {k : ℤ} (hd : 0 < d) (hlt : d < 2 ^ 53)
    (hk : k.natAbs ≤ 22) (hv : (interval ⟨s, m, e⟩).Contains (d * 10 ^ k)) :
    (Float.ofScientific d (k < 0) k.natAbs).toModel.unpack = .finite .positive m e hc.pos := by
  have hindex : k.natAbs < Float.exactlyRepresentablePowersOfTen.size := Nat.lt_succ_of_le hk
  obtain ⟨n, j, hn, hpower, hten⟩ := unpack_powersOfTen hindex
  have hdigits := unpack_toFloat hd hlt
  have hcd := canonical_of_lt hd hlt
  have hvalue := value_of_lt hd hlt
  rw [Float.ofScientific, dif_pos ⟨hlt, hk⟩]
  by_cases hneg : k < 0
  · rw [if_pos (by simpa using hneg)]
    rw [(mul_zpow_natAbs d k).1 hneg, ← hvalue, ← hten] at hv
    change (pack (UnpackedFloat.div Format.binary64 d.toUInt64.toFloat.toModel.unpack
      (Float.exactlyRepresentablePowersOfTen[k.natAbs]).toModel.unpack)).unpack = _
    rw [hdigits, hpower, div_of_contains hc _ _ hv, unpack_pack hc]
  · rw [if_neg (by simpa using hneg)]
    rw [(mul_zpow_natAbs d k).2 (by omega), ← hvalue, ← hten] at hv
    have hbits : 2 ^ 52 ≤ d * 2 ^ (52 - d.log2) * n :=
      (hcd.full.resolve_left (by omega)).trans (Nat.le_mul_of_pos_right _ hn)
    change (pack (UnpackedFloat.mul Format.binary64 d.toUInt64.toFloat.toModel.unpack
      (Float.exactlyRepresentablePowersOfTen[k.natAbs]).toModel.unpack)).unpack = _
    rw [hdigits, hpower, mul_of_contains hc _ _ hbits hv, unpack_pack hc]

/-- Nothing that rounds to a double is so great or so small that its power of ten is left out. -/
lemma exponent_of_contains (hc : Canonical m e) {d : ℕ} {k : ℤ}
    (hv : (interval ⟨s, m, e⟩).Contains (d * 10 ^ k)) :
    ¬ k > 2 ^ 11 ∧ ¬ k < -(2 ^ 11 + (d.log2 : ℤ)) := by
  obtain ⟨hmin, hmax⟩ := bounds_of_contains hc hv
  have hd : (1 : ℚ) ≤ d := by
    exact_mod_cast Nat.one_le_iff_ne_zero.2 (ne_zero_of_contains hc hv)
  constructor
  · intro hk
    have hten := (zpow_ten_bounds k).1 (by omega)
    have hle : (2 : ℚ) ^ (3 * k) ≤ d * 10 ^ k :=
      hten.trans (le_mul_of_one_le_left (by positivity) hd)
    have := lt_of_two_pow hle hmax
    omega
  · intro hk
    have hten := (zpow_ten_bounds k).2 (by omega)
    have hlt : (d * 10 ^ k : ℚ) < 2 ^ totalExponent d (3 * k) :=
      (mul_le_mul_of_nonneg_left hten (Nat.cast_nonneg d)).trans_lt
        (lt_two_pow_totalExponent (lt_add_one (d : ℚ)) (3 * k))
    have := lt_of_two_pow hmin hlt
    rw [totalExponent] at this
    omega

/-- With all bits of the digits and of the power of ten, one operation rounds. -/
lemma ofScientific_of_contains (hc : Canonical m e) {d : ℕ} {k : ℤ}
    (hv : (interval ⟨s, m, e⟩).Contains (d * 10 ^ k)) :
    UnpackedFloat.ofScientific Format.binary64 d k = .finite .positive m e hc.pos := by
  have hd : 0 < d := Nat.pos_of_ne_zero (ne_zero_of_contains hc hv)
  obtain ⟨hgreat, hsmall⟩ := exponent_of_contains hc hv
  rw [UnpackedFloat.ofScientific, dif_neg hd.ne', if_neg hgreat, if_neg hsmall]
  by_cases hk : 0 ≤ k
  · rw [if_pos hk]
    have hbits : 2 ^ 52 ≤ d <<< 53 * 10 ^ k.toNat := by
      rw [Nat.shiftLeft_eq]
      calc 2 ^ 52 ≤ 1 * 2 ^ 53 * 1 := by norm_num
        _ ≤ d * 2 ^ 53 * 10 ^ k.toNat :=
          Nat.mul_le_mul (Nat.mul_le_mul_right _ hd) (Nat.pow_pos (by norm_num))
    have hvalue : (d * 10 ^ k : ℚ) =
        (d <<< 53 : ℕ) * 2 ^ (-53 : ℤ) * ((10 ^ k.toNat : ℕ) * 2 ^ (0 : ℤ)) := by
      rw [(mul_zpow_natAbs d k).2 hk, show k.toNat = k.natAbs by omega, Nat.shiftLeft_eq]
      push_cast
      norm_num
      ring
    rw [hvalue] at hv
    exact mul_of_contains hc _ _ hbits hv
  · rw [if_neg hk]
    have hvalue : (d * 10 ^ k : ℚ) = d * 2 ^ (0 : ℤ) / ((10 ^ (-k).toNat : ℕ) * 2 ^ (0 : ℤ)) := by
      rw [(mul_zpow_natAbs d k).1 (by omega), show (-k).toNat = k.natAbs by omega]
      push_cast
      norm_num
    rw [hvalue] at hv
    exact div_of_contains hc _ _ hv

/-- The decimals that no short way converts. -/
lemma toModel_ofScientific {d : ℕ} {k : ℤ} (h : ¬ (d < 2 ^ 53 ∧ k.natAbs ≤ 22)) :
    (Float.ofScientific d (k < 0) k.natAbs).toModel =
      pack (UnpackedFloat.ofScientific Format.binary64 d k) := by
  have hexp : (if decide (k < 0) = true then Int.negOfNat k.natAbs else Int.ofNat k.natAbs) =
      k := by
    obtain ⟨n, rfl | rfl⟩ := k.eq_nat_or_neg
    · exact if_neg (by simp)
    · rw [Int.negOfNat_eq, Int.natAbs_neg, Int.natAbs_natCast]
      split
      · rfl
      · next hneg =>
        have hn : n = 0 := by simpa using hneg
        rw [hn]
        rfl
  rw [Float.ofScientific, dif_neg h, hexp]
  rfl

/-- **A decimal among the numbers that round to a double is converted to it.** -/
theorem unpack_ofScientific (hc : Canonical m e) {d : ℕ} {k : ℤ}
    (hv : (interval ⟨s, m, e⟩).Contains (d * 10 ^ k)) :
    (Float.ofScientific d (k < 0) k.natAbs).toModel.unpack = .finite .positive m e hc.pos := by
  by_cases hshort : d < 2 ^ 53 ∧ k.natAbs ≤ 22
  · have hd : 0 < d := Nat.pos_of_ne_zero (ne_zero_of_contains hc hv)
    exact unpack_ofScientific_of_lt hc hd hshort.1 hshort.2 hv
  · rw [toModel_ofScientific hshort, ofScientific_of_contains hc hv, unpack_pack hc]

/-- The place of the first digit of a decimal that rounds to a double. -/
lemma places_of_contains (hc : Canonical m e) {d : ℕ} {k : ℤ}
    (hv : (interval ⟨s, m, e⟩).Contains (d * 10 ^ k)) :
    -400 ≤ (Text.numeral d).length + k ∧ (Text.numeral d).length + k ≤ 400 := by
  obtain ⟨hmin, hmax⟩ := bounds_of_contains hc hv
  have hlen : (Text.numeral d).length ≠ 0 :=
    fun h => Text.numeral_ne_nil d (List.length_eq_zero_iff.1 h)
  obtain ⟨n, hn⟩ : ∃ n, (Text.numeral d).length = n + 1 := ⟨_, (Nat.succ_pred hlen).symm⟩
  have hlt := Text.lt_ten_pow_length d
  have hle := Text.ten_pow_le (ne_zero_of_contains hc hv)
  rw [hn] at hlt hle ⊢
  rw [Nat.add_sub_cancel] at hle
  have hbelow : (d * 10 ^ k : ℚ) < 10 ^ (n + 1 + k) := by
    rw [zpow_add₀ (by norm_num)]
    exact mul_lt_mul_of_pos_right (by exact_mod_cast hlt) (by positivity)
  have habove : (10 : ℚ) ^ (n + k) ≤ d * 10 ^ k := by
    rw [zpow_add₀ (by norm_num)]
    exact mul_le_mul_of_nonneg_right (by exact_mod_cast hle) (by positivity)
  push_cast
  constructor
  · by_contra hsmall
    have hten := (zpow_ten_bounds (n + 1 + k)).2 (by omega)
    have := lt_of_two_pow hmin (hbelow.trans_le hten)
    omega
  · by_contra hgreat
    have hten := (zpow_ten_bounds (n + k)).1 (by omega)
    have := lt_of_two_pow (hten.trans habove) hmax
    omega

/-- **A decimal among the numbers that round to a double is read as that double.** -/
theorem binary_ofDecimal (hc : Canonical m e) {d : ℕ} {k : ℤ}
    (hv : (interval ⟨s, m, e⟩).Contains (d * 10 ^ k)) (b : Bool) :
    (ofDecimal b d k).isFinite = true ∧ binary (ofDecimal b d k) = ⟨b, m, e⟩ := by
  obtain ⟨hfirst, hlast⟩ := places_of_contains hc hv
  have hguard : ¬ (d = 0 ∨ (Text.numeral d).length + k < -400) := by
    rintro (h | h)
    · exact ne_zero_of_contains hc hv h
    · omega
  have hsize := unpack_ofScientific hc hv
  have hunpack : (ofDecimal b d k).toModel.unpack = .finite (signOf b) m e hc.pos := by
    rw [ofDecimal, if_neg hguard, if_neg (not_lt.2 hlast)]
    cases b with
    | false => exact hsize
    | true =>
      change (pack (Float.ofScientific d (k < 0) k.natAbs).toModel.unpack.neg).unpack = _
      rw [hsize]
      exact unpack_pack hc .negative
  exact ⟨isFinite_of_unpack hunpack, binary_of_unpack hunpack⟩

end HtmlTemplate.Double
