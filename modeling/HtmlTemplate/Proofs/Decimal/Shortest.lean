import HtmlTemplate.Proofs.Decimal.Rounding

/-!
The digits that are written for a double lie among the numbers that round to it. The search compares
whole numbers, and on its way down it reaches a grid so fine that it has a point there.
-/

namespace HtmlTemplate

/-- The number that a decimal is. -/
def Decimal.value (d : Decimal) : ℚ := d.digits * 10 ^ d.exponent

namespace Double

namespace Interval

variable {i : Interval} {tie : Tie} {place : ℤ} {n : ℕ}

/-- Both scales are multiples of one number. -/
lemma exists_scale (i : Interval) (place : ℤ) : ∃ c : ℚ, 0 < c ∧
    (i.scales place).1 = c * 10 ^ place ∧ (i.scales place).2 = c * 2 ^ i.exponent := by
  refine ⟨10 ^ (-place).toNat * 2 ^ (-i.exponent).toNat, by positivity, ?_, ?_⟩
  · rw [zpow_eq_div (by norm_num) place, scales]
    simp only [Nat.shiftLeft_eq, Nat.pow_eq]
    push_cast
    field_simp
  · rw [zpow_eq_div (by norm_num) i.exponent, scales]
    simp only [Nat.shiftLeft_eq, Nat.pow_eq]
    push_cast
    field_simp

/-- Whether a point of a grid lies in the interval, as whole numbers tell. -/
lemma contains_iff (i : Interval) (place : ℤ) (n : ℕ) : i.Contains (n * 10 ^ place) ↔
    (if i.closed then i.low * (i.scales place).2 ≤ n * (i.scales place).1 &&
        n * (i.scales place).1 ≤ i.high * (i.scales place).2
      else i.low * (i.scales place).2 < n * (i.scales place).1 &&
        n * (i.scales place).1 < i.high * (i.scales place).2 : Bool) = true := by
  obtain ⟨c, hc, hstep, hunit⟩ := i.exists_scale place
  have hscale : ∀ a : ℕ, ((a * (i.scales place).2 : ℕ) : ℚ) = c * (a * 2 ^ i.exponent) := by
    intro a
    push_cast
    rw [hunit]
    ring
  have hpoint : ((n * (i.scales place).1 : ℕ) : ℚ) = c * (n * 10 ^ place) := by
    push_cast
    rw [hstep]
    ring
  rw [Contains]
  split
  · rw [Bool.and_eq_true, decide_eq_true_iff, decide_eq_true_iff, ← @Nat.cast_le ℚ,
      ← @Nat.cast_le ℚ, hscale, hscale, hpoint, mul_le_mul_iff_of_pos_left hc,
      mul_le_mul_iff_of_pos_left hc]
  · rw [Bool.and_eq_true, decide_eq_true_iff, decide_eq_true_iff, ← @Nat.cast_lt ℚ,
      ← @Nat.cast_lt ℚ, hscale, hscale, hpoint, mul_lt_mul_iff_of_pos_left hc,
      mul_lt_mul_iff_of_pos_left hc]

/-- A point found on a grid lies in the interval. -/
lemma contains_of_gridPoint? (h : i.gridPoint? tie place = some n) :
    i.Contains (n * 10 ^ place) := by
  have hiff := i.contains_iff place
  rw [gridPoint?] at h
  generalize i.scales place = p at h hiff
  obtain ⟨step, unit⟩ := p
  dsimp only at h hiff
  split at h
  · cases h
  · next hinside _ =>
    cases h
    exact (hiff _).2 hinside
  · next _ hinside =>
    cases h
    exact (hiff _).2 hinside
  · next hinside hinside' =>
    split at h
    · cases h
      exact (hiff _).2 hinside
    · cases h
      exact (hiff _).2 hinside'
    · cases h
      rw [Tie.choose]
      split
      · exact (hiff _).2 hinside
      · exact (hiff _).2 hinside'

/-- A grid of steps shorter than two units has a point in the interval. -/
lemma isSome_gridPoint? (hlow : i.low < i.value) (hhigh : i.value + 2 ≤ i.high)
    (hplace : (10 : ℚ) ^ place < 2 * 2 ^ i.exponent) : (i.gridPoint? tie place).isSome = true := by
  obtain ⟨c, hc, hstep, hunit⟩ := i.exists_scale place
  have hshort : (i.scales place).1 < 2 * (i.scales place).2 := by
    have hlt := mul_lt_mul_of_pos_left hplace hc
    have hcast : ((i.scales place).1 : ℚ) < 2 * (i.scales place).2 := by
      rw [hstep, hunit]
      linarith
    exact_mod_cast hcast
  have hpos : 0 < (i.scales place).1 := by
    have hcast : (0 : ℚ) < (i.scales place).1 := by
      rw [hstep]
      positivity
    exact_mod_cast hcast
  rw [gridPoint?]
  generalize i.scales place = p at hshort hpos ⊢
  obtain ⟨step, unit⟩ := p
  dsimp only at hshort hpos ⊢
  obtain ⟨d, hd⟩ : ∃ d, d = i.value * unit / step := ⟨_, rfl⟩
  rw [← hd]
  -- The first point above the double lies between it and the upper end.
  have habove : i.low * unit < (d + 1) * step := by
    calc i.low * unit < i.value * unit := Nat.mul_lt_mul_of_pos_right hlow (by omega)
      _ < d * step + step := hd ▸ Nat.lt_div_mul_add hpos
      _ = (d + 1) * step := (Nat.succ_mul d step).symm
  have hbelow : (d + 1) * step < i.high * unit := by
    calc (d + 1) * step = d * step + step := Nat.succ_mul d step
      _ ≤ i.value * unit + step := Nat.add_le_add_right (hd ▸ Nat.div_mul_le_self _ _) _
      _ < i.value * unit + 2 * unit := Nat.add_lt_add_left hshort _
      _ = (i.value + 2) * unit := (Nat.add_mul _ _ _).symm
      _ ≤ i.high * unit := Nat.mul_le_mul_right _ hhigh
  have hinside : (if i.closed then decide (i.low * unit ≤ (d + 1) * step) &&
      decide ((d + 1) * step ≤ i.high * unit)
    else decide (i.low * unit < (d + 1) * step) && decide ((d + 1) * step < i.high * unit)) =
      true := by
    split
    · rw [decide_eq_true habove.le, decide_eq_true hbelow.le]
      rfl
    · rw [decide_eq_true habove, decide_eq_true hbelow]
      rfl
  rw [hinside]
  split
  · next h => cases h
  · next h => cases h
  · rfl
  · split <;> rfl

/-- The descent ends at a point of the interval if some grid on its way has one. -/
lemma contains_descend {steps : ℕ} (h : ∃ p : ℤ, place - steps < p ∧ p ≤ place ∧
    (i.gridPoint? tie p).isSome = true) : i.Contains (i.descend tie steps place).value := by
  induction steps generalizing place with
  | zero =>
    obtain ⟨p, hlow, hhigh, -⟩ := h
    push_cast at hlow
    omega
  | succ steps ih =>
    rw [descend]
    cases hpoint : i.gridPoint? tie place with
    | some d => exact contains_of_gridPoint? hpoint
    | none =>
      obtain ⟨p, hlow, hhigh, hsome⟩ := h
      have hne : p ≠ place := by
        rintro rfl
        rw [hpoint] at hsome
        cases hsome
      push_cast at hlow
      exact ih ⟨p, by omega, by omega, hsome⟩

end Interval

/-- Steps of the 324th place after the point are shorter than the unit of any double. -/
lemma place_lt_unit {e : ℤ} (he : -1074 ≤ e) : (10 : ℚ) ^ (-324 : ℤ) < 2 * 2 ^ (e - 2) := by
  have hnat : 2 ^ 1075 < 10 ^ 324 := by decide +kernel
  have hpow : (2 : ℚ) ^ 1075 < 10 ^ 324 := by exact_mod_cast hnat
  calc (10 : ℚ) ^ (-324 : ℤ) = (10 ^ 324)⁻¹ := by rw [zpow_neg]; rfl
    _ < (2 ^ 1075)⁻¹ := inv_strictAnti₀ (by positivity) hpow
    _ = 2 ^ (-1075 : ℤ) := by rw [zpow_neg]; rfl
    _ ≤ 2 ^ (e - 1) := zpow_le_zpow_right₀ one_le_two (by omega)
    _ = 2 * 2 ^ (e - 2) := by
      rw [show e - 1 = 1 + (e - 2) by ring, zpow_add₀ two_ne_zero, zpow_one]

/-- **The digits written for a double lie among the numbers that round to it.** -/
theorem contains_shortest {x : Float} (hc : Canonical (binary x).mantissa (binary x).exponent)
    (tie : Tie) : (interval (binary x)).Contains (shortest tie x).value := by
  have hpos := hc.pos
  rw [shortest, if_neg hpos.ne']
  refine Interval.contains_descend ⟨-324, by omega, ?_, Interval.isSome_gridPoint? ?_ le_rfl ?_⟩
  · exact (by omega : (-324 : ℤ) ≤ 0).trans (Int.natCast_nonneg _)
  · rw [interval]
    dsimp only
    split <;> omega
  · exact place_lt_unit hc.least_le

end Double

end HtmlTemplate
