import Mathlib.Algebra.Order.Field.Power
import Mathlib.Data.Rat.Cast.Order
import Mathlib.Tactic.FieldSimp
import Mathlib.Tactic.Linarith
import Mathlib.Tactic.Positivity
import Mathlib.Tactic.Ring
import HtmlTemplate.Decimal.Shortest

/-!
Rounding to the nearest double.

The arithmetic of doubles keeps the whole part of an exact result and two bits about the rest, cuts
digits off until 53 are left, and rounds. So a result that lies among the numbers that round to a
double becomes that double.
-/

namespace HtmlTemplate.Double

open Float.Model Float.Model.UnpackedFloat

/-! ### What the two bits say -/

/-- What a mantissa and its two bits say of a number: it is the mantissa and nothing more, less than
half a unit more, half a unit more, or more than that. -/
inductive Describes : ExtendedMantissa → ℚ → Prop
  | exact (m : ℕ) : Describes ⟨m, false, false⟩ m
  | below {m : ℕ} {x : ℚ} : m < x → x < m + 1 / 2 → Describes ⟨m, false, true⟩ x
  | half (m : ℕ) : Describes ⟨m, true, false⟩ (m + 1 / 2)
  | above {m : ℕ} {x : ℚ} : m + 1 / 2 < x → x < m + 1 → Describes ⟨m, true, true⟩ x

/-- A quotient is described by its whole part and what is known of the remainder. -/
lemma describes_quotient (a : ℕ) {b : ℕ} (hb : 0 < b) :
    Describes (.ofMantissaAndAccuracy (a / b) (accuracyOfFraction (a % b) b)) (a / b) := by
  obtain ⟨q, hq⟩ : ∃ q, q = a / b := ⟨_, rfl⟩
  obtain ⟨r, hr⟩ : ∃ r, r = a % b := ⟨_, rfl⟩
  have hb' : (0 : ℚ) < b := by exact_mod_cast hb
  have hsum : (a : ℚ) / b = q + r / b := by
    have hsplit : (a : ℚ) = b * q + r := by
      rw [hq, hr]
      exact_mod_cast (Nat.div_add_mod a b).symm
    rw [hsplit]
    field_simp
  have hlt : (r : ℚ) / b < 1 := by
    rw [div_lt_one hb']
    exact_mod_cast hr ▸ Nat.mod_lt a hb
  rw [hsum, ← hq, ← hr, accuracyOfFraction]
  split
  · next hzero =>
    rw [hzero, Nat.cast_zero, zero_div, add_zero]
    exact .exact q
  · next hne =>
    have hpos : (0 : ℚ) < r / b := by
      refine div_pos ?_ hb'
      exact_mod_cast Nat.pos_of_ne_zero hne
    cases hcompare : compare (2 * r) b with
    | lt =>
      have hhalf : (r : ℚ) / b < 1 / 2 := by
        rw [div_lt_div_iff₀ hb' (by norm_num), one_mul, mul_comm]
        exact_mod_cast Nat.compare_eq_lt.1 hcompare
      exact .below (by linarith) (by linarith)
    | eq =>
      have hhalf : (r : ℚ) / b = 1 / 2 := by
        rw [div_eq_div_iff hb'.ne' (by norm_num), one_mul, mul_comm]
        exact_mod_cast Nat.compare_eq_eq.1 hcompare
      rw [hhalf]
      exact .half q
    | gt =>
      have hhalf : 1 / 2 < (r : ℚ) / b := by
        rw [div_lt_div_iff₀ (by norm_num) hb', one_mul, mul_comm]
        exact_mod_cast Nat.compare_eq_gt.1 hcompare
      exact .above (by linarith) (by linarith)

namespace Describes

variable {em : ExtendedMantissa} {x : ℚ}

lemma bounds (h : Describes em x) : (em.mantissa : ℚ) ≤ x ∧ x < em.mantissa + 1 := by
  cases h with
  | exact | half => constructor <;> linarith
  | below h h' | above h h' => constructor <;> dsimp only <;> linarith

/-- Shifting by one place halves the number. -/
lemma shiftRightOne (h : Describes em x) : Describes em.shiftRightOne (x / 2) := by
  obtain ⟨m, r, s⟩ := em
  obtain ⟨k, rfl | rfl⟩ := Nat.even_or_odd' m
  · have hshift : ExtendedMantissa.shiftRightOne ⟨2 * k, r, s⟩ = ⟨k, false, r || s⟩ := by
      rw [ExtendedMantissa.shiftRightOne, Nat.mul_div_cancel_left k (by omega), Nat.mul_mod_right]
      rfl
    rw [hshift]
    cases h with
    | exact =>
      have hx : ((2 * k : ℕ) : ℚ) / 2 = k := by push_cast; ring
      rw [hx]
      exact .exact k
    | below h h' | above h h' =>
      push_cast at h h'
      exact .below (by linarith) (by linarith)
    | half =>
      push_cast
      exact .below (by linarith) (by linarith)
  · have hshift : ExtendedMantissa.shiftRightOne ⟨2 * k + 1, r, s⟩ = ⟨k, true, r || s⟩ := by
      have hdiv : (2 * k + 1) / 2 = k := by omega
      have hmod : (2 * k + 1) % 2 = 1 := by omega
      rw [ExtendedMantissa.shiftRightOne, hdiv, hmod]
      rfl
    rw [hshift]
    cases h with
    | exact =>
      have hx : ((2 * k + 1 : ℕ) : ℚ) / 2 = k + 1 / 2 := by push_cast; ring
      rw [hx]
      exact .half k
    | below h h' | above h h' =>
      push_cast at h h'
      exact .above (by linarith) (by linarith)
    | half =>
      push_cast
      exact .above (by linarith) (by linarith)

lemma shiftRight (h : Describes em x) (s : ℕ) : Describes (em >>> s) (x / 2 ^ s) := by
  change Describes (s.repeat ExtendedMantissa.shiftRightOne em) (x / 2 ^ s)
  induction s with
  | zero => simpa [Nat.repeat] using h
  | succ s ih =>
    rw [pow_succ, ← div_div]
    exact ih.shiftRightOne

/-- Rounding gives the nearest whole number, and of two equally near the even one. -/
lemma roundedMantissa (h : Describes em x) {m : ℕ} (hlow : (m : ℚ) - 1 / 2 ≤ x)
    (hhigh : x ≤ m + 1 / 2) (htie : x = m - 1 / 2 ∨ x = m + 1 / 2 → m % 2 = 0) :
    em.roundedMantissa = m := by
  cases h with
  | exact n =>
    have hle : (2 * m : ℚ) ≤ 2 * n + 1 := by linarith
    have hge : (2 * n : ℚ) ≤ 2 * m + 1 := by linarith
    norm_cast at hle hge
    change n = m
    omega
  | @below n x h h' =>
    have hle : (m : ℚ) < n + 1 := by linarith
    have hge : (2 * n : ℚ) < 2 * m + 1 := by linarith
    norm_cast at hle hge
    change n = m
    omega
  | half n =>
    have hle : (m : ℚ) ≤ n + 1 := by linarith
    have hge : (n : ℚ) ≤ m := by linarith
    norm_cast at hle hge
    change n + n % 2 = m
    obtain rfl | rfl : m = n ∨ m = n + 1 := by omega
    · have heven := htie (.inr rfl)
      omega
    · have heven := htie (.inl (by push_cast; ring))
      omega
  | @above n x h h' =>
    have hle : (2 * m : ℚ) < 2 * n + 3 := by linarith
    have hge : (n : ℚ) < m := by linarith
    norm_cast at hle hge
    change n + 1 = m
    omega

end Describes

/-! ### The numbers that round to a double -/

/-- The mantissa and the exponent of a positive double. -/
structure Canonical (m : ℕ) (e : ℤ) : Prop where
  pos : 0 < m
  lt : m < 2 ^ 53
  least_le : -1074 ≤ e
  le : e ≤ 971
  full : e = -1074 ∨ 2 ^ 52 ≤ m

/-- Whether a number lies between the ends of an interval. -/
def Interval.Contains (i : Interval) (v : ℚ) : Prop :=
  if i.closed then i.low * 2 ^ i.exponent ≤ v ∧ v ≤ i.high * 2 ^ i.exponent
  else i.low * 2 ^ i.exponent < v ∧ v < i.high * 2 ^ i.exponent

section Contains

variable {m : ℕ} {e : ℤ} {s : Bool} {v : ℚ}

/-- In units of the last place an interval reaches half a unit down and half a unit up, and below a
power of two a quarter down. -/
lemma contains_interval_iff (hm : 0 < m) : (interval ⟨s, m, e⟩).Contains v ↔
    let low : ℚ := if m = 2 ^ 52 ∧ -1074 < e then m - 1 / 4 else m - 1 / 2
    if m % 2 = 0 then low ≤ v / 2 ^ e ∧ v / 2 ^ e ≤ m + 1 / 2
    else low < v / 2 ^ e ∧ v / 2 ^ e < m + 1 / 2 := by
  have hpos : (0 : ℚ) < 2 ^ e := by positivity
  have hunit : (2 : ℚ) ^ (e - 2) = 2 ^ e / 4 := by
    rw [zpow_sub₀ (by norm_num)]
    norm_num
  have hlow : ((interval ⟨s, m, e⟩).low : ℚ) * 2 ^ (e - 2) =
      (if m = 2 ^ 52 ∧ -1074 < e then (m : ℚ) - 1 / 4 else m - 1 / 2) * 2 ^ e := by
    have hcond : (m = hiddenBit ∧ leastExponent < e) ↔ m = 2 ^ 52 ∧ -1074 < e := Iff.rfl
    rw [hunit, interval]
    simp only [hcond]
    split
    · rw [Nat.cast_sub (by omega)]
      push_cast
      ring
    · rw [Nat.cast_sub (by omega)]
      push_cast
      ring
  have hhigh : ((interval ⟨s, m, e⟩).high : ℚ) * 2 ^ (e - 2) = (m + 1 / 2) * 2 ^ e := by
    rw [hunit, interval]
    push_cast
    ring
  have hclosed : (interval ⟨s, m, e⟩).closed = true ↔ m % 2 = 0 := beq_iff_eq
  rw [Interval.Contains]
  simp only [hclosed, show (interval ⟨s, m, e⟩).exponent = e - 2 from rfl, hlow, hhigh,
    ← le_div_iff₀ hpos, ← div_le_iff₀ hpos, ← lt_div_iff₀ hpos, ← div_lt_iff₀ hpos]

lemma near_of_contains (hm : 0 < m) (h : (interval ⟨s, m, e⟩).Contains v) :
    (m : ℚ) - 1 / 2 ≤ v / 2 ^ e ∧ v / 2 ^ e ≤ m + 1 / 2 ∧
      (v / 2 ^ e = m - 1 / 2 ∨ v / 2 ^ e = m + 1 / 2 → m % 2 = 0) := by
  rw [contains_interval_iff hm] at h
  have hlow : (m : ℚ) - 1 / 2 ≤ if m = 2 ^ 52 ∧ -1074 < e then (m : ℚ) - 1 / 4 else m - 1 / 2 := by
    split <;> linarith
  dsimp only at h
  split at h
  · next heven => exact ⟨by linarith, by linarith, fun _ => heven⟩
  · refine ⟨by linarith, by linarith, ?_⟩
    rintro (htie | htie) <;> linarith

lemma near_of_contains_hidden (he : -1074 < e) (h : (interval ⟨s, 2 ^ 52, e⟩).Contains v) :
    ((2 ^ 52 : ℕ) : ℚ) - 1 / 4 ≤ v / 2 ^ e := by
  rw [contains_interval_iff (by norm_num)] at h
  dsimp only at h
  rw [if_pos (by norm_num), if_pos ⟨rfl, he⟩] at h
  exact h.1

lemma lt_two_pow_of_contains (hc : Canonical m e) (h : (interval ⟨s, m, e⟩).Contains v) :
    v < 2 ^ (53 + e) := by
  obtain ⟨-, hfar, -⟩ := near_of_contains hc.pos h
  have hm : (m : ℚ) + 1 ≤ 2 ^ 53 := by exact_mod_cast hc.lt
  rw [zpow_add₀ two_ne_zero, ← div_lt_iff₀ (by positivity)]
  exact hfar.trans_lt (by linarith)

lemma two_pow_le_of_contains (hm : 2 ^ 52 < m) (h : (interval ⟨s, m, e⟩).Contains v) :
    2 ^ (52 + e) ≤ v := by
  obtain ⟨hnear, -, -⟩ := near_of_contains (by omega) h
  have hm' : (2 ^ 52 + 1 : ℚ) ≤ m := by exact_mod_cast hm
  rw [zpow_add₀ two_ne_zero, ← le_div_iff₀ (by positivity)]
  exact le_trans (by linarith) hnear

lemma two_pow_le_of_contains_hidden (he : -1074 < e) (h : (interval ⟨s, 2 ^ 52, e⟩).Contains v) :
    2 ^ (51 + e) ≤ v := by
  have hnear := near_of_contains_hidden he h
  rw [zpow_add₀ two_ne_zero, ← le_div_iff₀ (by positivity)]
  exact le_trans (by norm_num) hnear

end Contains

/-! ### Rounding to 53 bits -/

lemma zpow_eq_div {a : ℚ} (ha : a ≠ 0) (k : ℤ) : a ^ k = a ^ k.toNat / a ^ (-k).toNat := by
  rw [← zpow_natCast, ← zpow_natCast, ← zpow_sub₀ ha]
  congr 1
  omega

lemma targetExponent_eq (t : ℤ) : Format.binary64.targetExponent t = max (t - 53) (-1074) := rfl

/-- The power of two above a number, from the bits that are known of it. -/
lemma lt_two_pow_totalExponent {n : ℕ} {y : ℚ} (hy : y < n + 1) (k : ℤ) :
    y * 2 ^ k < 2 ^ totalExponent n k := by
  have hn : (n : ℚ) + 1 ≤ 2 ^ (n.log2 + 1) := by exact_mod_cast Nat.lt_log2_self
  calc y * 2 ^ k < 2 ^ (n.log2 + 1) * 2 ^ k :=
        mul_lt_mul_of_pos_right (hy.trans_le hn) (by positivity)
    _ = 2 ^ totalExponent n k := by
        rw [totalExponent, zpow_add₀ (by norm_num)]
        norm_cast

lemma two_pow_totalExponent_le {n : ℕ} (hn : n ≠ 0) {y : ℚ} (hy : n ≤ y) (k : ℤ) :
    2 ^ (totalExponent n k - 1) ≤ y * 2 ^ k := by
  have hpow : (2 : ℚ) ^ n.log2 ≤ n := by exact_mod_cast Nat.log2_self_le hn
  calc (2 : ℚ) ^ (totalExponent n k - 1) = 2 ^ n.log2 * 2 ^ k := by
        rw [totalExponent, show (n.log2 + 1 + k - 1 : ℤ) = n.log2 + k by ring,
          zpow_add₀ (by norm_num)]
        norm_cast
    _ ≤ y * 2 ^ k := mul_le_mul_of_nonneg_right (hpow.trans hy) (by positivity)

lemma lt_of_two_pow {a b : ℤ} {v : ℚ} (ha : 2 ^ a ≤ v) (hb : v < 2 ^ b) : a < b :=
  (zpow_lt_zpow_iff_right₀ one_lt_two).1 (ha.trans_lt hb)

/-- The last place to which a number is cut is that of the double it rounds to; just below a power
of two it may be one place lower. -/
lemma targetExponent_of_contains {m : ℕ} {e : ℤ} (hc : Canonical m e) {n : ℕ} {k : ℤ} {y : ℚ}
    (hle : n ≤ y) (hlt : y < n + 1) (hk : k ≤ Format.binary64.targetExponent (totalExponent n k))
    {s : Bool} (hv : (interval ⟨s, m, e⟩).Contains (y * 2 ^ k)) :
    Format.binary64.targetExponent (totalExponent n k) = e ∨
      m = 2 ^ 52 ∧ -1074 < e ∧ Format.binary64.targetExponent (totalExponent n k) = e - 1 := by
  have htop := lt_two_pow_totalExponent hlt k
  have hleast := hc.least_le
  rw [targetExponent_eq] at hk ⊢
  -- Where no bit of the number is left, it lies below the least double.
  have hupper : totalExponent n k - 1 < 53 + e := by
    rcases eq_or_ne n 0 with rfl | hn
    · rw [totalExponent, show Nat.log2 0 = 0 by decide] at hk ⊢
      push_cast at hk ⊢
      omega
    · exact lt_of_two_pow (two_pow_totalExponent_le hn hle k) (lt_two_pow_of_contains hc hv)
  rcases hc.full with he | hm
  · omega
  · rcases hm.eq_or_lt with rfl | hm
    · rcases hleast.eq_or_lt with he | he
      · omega
      · have := lt_of_two_pow (two_pow_le_of_contains_hidden he hv) htop
        omega
    · have := lt_of_two_pow (two_pow_le_of_contains hm hv) htop
      omega

/-- What the first shift keeps of a number. -/
lemma shiftToTargetExponent_eq {n : ℕ} {k : ℤ} (acc : Accuracy)
    (hk : k ≤ Format.binary64.targetExponent (totalExponent n k)) :
    shiftToTargetExponent Format.binary64 n k acc =
      (ExtendedMantissa.ofMantissaAndAccuracy n acc >>>
        (Format.binary64.targetExponent (totalExponent n k) - k).toNat,
        Format.binary64.targetExponent (totalExponent n k)) := by
  simp only [shiftToTargetExponent, shiftToExponent]
  rw [Int.toNat_of_nonneg (by omega), add_sub_cancel]

lemma Canonical.targetExponent_eq {m : ℕ} {e : ℤ} (hc : Canonical m e) :
    Format.binary64.targetExponent (totalExponent m e) = e := by
  have hlt : m.log2 < 53 := (Nat.log2_lt hc.pos.ne').2 hc.lt
  have hleast := hc.least_le
  rw [Double.targetExponent_eq, totalExponent]
  rcases hc.full with he | hm
  · omega
  · have hle : 52 ≤ m.log2 := (Nat.le_log2 hc.pos.ne').2 hm
    omega

/-- A double is cut nowhere. -/
lemma shiftToTargetExponent_canonical {m : ℕ} {e : ℤ} (hc : Canonical m e) :
    shiftToTargetExponent Format.binary64 m e .exact = (⟨m, false, false⟩, e) := by
  rw [shiftToTargetExponent_eq _ hc.targetExponent_eq.ge, hc.targetExponent_eq, sub_self]
  rfl

/-- A bit that rounding carries out of the mantissa moves the exponent up. -/
lemma shiftToTargetExponent_carry {e : ℤ} (he : -1074 < e) :
    shiftToTargetExponent Format.binary64 (2 ^ 53) (e - 1) .exact =
      (⟨2 ^ 52, false, false⟩, e) := by
  have htarget : Format.binary64.targetExponent (totalExponent (2 ^ 53) (e - 1)) = e := by
    rw [targetExponent_eq, totalExponent, Nat.log2_two_pow]
    push_cast
    omega
  rw [shiftToTargetExponent_eq _ (by omega), htarget, show e - (e - 1) = 1 by ring]
  rfl

/-- Just below a power of two rounding carries. -/
lemma Describes.roundedMantissa_carry {e : ℤ} (he : -1074 < e) {s : Bool} {v : ℚ}
    (hv : (interval ⟨s, 2 ^ 52, e⟩).Contains v) (htop : v < 2 ^ (52 + e)) {em : ExtendedMantissa}
    (h : Describes em (v / 2 ^ (e - 1))) : em.roundedMantissa = 2 ^ 53 := by
  have hdouble : v / 2 ^ (e - 1) = 2 * (v / 2 ^ e) := by
    rw [zpow_sub₀ two_ne_zero, zpow_one]
    field_simp
  have hnear := near_of_contains_hidden he hv
  have hfar : v / 2 ^ e < 2 ^ 52 := by
    rw [div_lt_iff₀ (by positivity), ← zpow_natCast, ← zpow_add₀ two_ne_zero]
    exact htop
  push_cast at hnear
  refine h.roundedMantissa ?_ ?_ fun _ => by norm_num
  · push_cast
    linarith
  · push_cast
    linarith

/-- **A number among those that round to a double becomes that double.** What is known of the number
is its whole part `n` in units of `2 ^ k`, and two bits of the rest; the unit has to be fine enough
for 53 bits. -/
theorem roundWithAccuracy_of_contains {m : ℕ} {e : ℤ} (hc : Canonical m e) {n : ℕ} {k : ℤ}
    {acc : Accuracy} {y : ℚ} (hy : Describes (.ofMantissaAndAccuracy n acc) y)
    (hk : k ≤ Format.binary64.targetExponent (totalExponent n k)) {s : Bool}
    (hv : (interval ⟨s, m, e⟩).Contains (y * 2 ^ k)) (sign : Sign) :
    roundWithAccuracy Format.binary64 sign n k acc = .finite sign m e hc.pos := by
  obtain ⟨hle, hlt⟩ : (n : ℚ) ≤ y ∧ y < n + 1 := by
    have hmantissa : (ExtendedMantissa.ofMantissaAndAccuracy n acc).mantissa = n := by
      unfold ExtendedMantissa.ofMantissaAndAccuracy
      split <;> rfl
    exact hmantissa ▸ hy.bounds
  have htarget := targetExponent_of_contains hc hle hlt hk hv
  obtain ⟨T, hT⟩ : ∃ T, T = Format.binary64.targetExponent (totalExponent n k) := ⟨_, rfl⟩
  have hfirst := shiftToTargetExponent_eq acc hk
  rw [← hT] at htarget hk hfirst
  have hcut := hy.shiftRight (T - k).toNat
  have hscaled : y / 2 ^ (T - k).toNat = y * 2 ^ k / 2 ^ T := by
    rw [← zpow_natCast, Int.toNat_of_nonneg (by omega), zpow_sub₀ two_ne_zero]
    field_simp
  rw [hscaled] at hcut
  rw [roundWithAccuracy, hfirst]
  dsimp only
  rcases htarget with rfl | ⟨rfl, he, rfl⟩
  · obtain ⟨hnear, hfar, htie⟩ := near_of_contains hc.pos hv
    rw [hcut.roundedMantissa hnear hfar htie, shiftToTargetExponent_canonical hc]
    exact dif_neg hc.pos.ne'
  · have htop : y * 2 ^ k < 2 ^ (52 + e) := by
      rw [targetExponent_eq] at hT
      exact (lt_two_pow_totalExponent hlt k).trans_le (zpow_le_zpow_right₀ one_le_two (by omega))
    rw [hcut.roundedMantissa_carry he hv htop, shiftToTargetExponent_carry he]
    exact dif_neg (by norm_num)

end HtmlTemplate.Double
