import HtmlTemplate.Proofs.Decimal.Display

/-!
Numbers as templates print them, and what their texts count as. Told by their texts are all
integers, and the doubles between the bounds of the signed 64-bit integers.
-/

namespace HtmlTemplate

namespace Double

variable {x : Float}

lemma abs_value (x : Float) : |value x| = (binary x).mantissa * 2 ^ (binary x).exponent := by
  have hpos : (0 : ℚ) ≤ (binary x).mantissa * 2 ^ (binary x).exponent := by positivity
  rw [value, abs_mul, abs_of_nonneg hpos]
  split
  · rw [abs_neg, abs_one, one_mul]
  · rw [abs_one, one_mul]

/-- A double whose value is an integer is that integer. -/
lemma toInt_of_value_eq (hx : x.isFinite = true) {k : ℤ} (hk : value x = k) :
    isWhole x = true ∧ toInt x = k := by
  have hwhole : isWhole x = true := by
    by_contra hw
    have hc := canonical_of_not_isWhole hx (Bool.eq_false_of_not_eq_true hw)
    have hsize : (k.natAbs : ℚ) = (binary x).mantissa * 2 ^ (binary x).exponent := by
      rw [← abs_value, hk, Nat.cast_natAbs, Int.cast_abs]
    exact hw (isWhole_of_contains hx hc (hsize ▸ contains_self hc))
  refine ⟨hwhole, ?_⟩
  exact_mod_cast (toInt_eq_value hwhole).trans hk

/-- Beyond 53 bits every double is whole. -/
lemma abs_value_lt (hx : x.isFinite = true) (hw : isWhole x = false) : |value x| < 2 ^ 53 := by
  have hc := canonical_of_not_isWhole hx hw
  have he : (binary x).exponent < 0 := by
    by_contra he
    have hwhole : isWhole x = true := isWhole_iff.2 ⟨hx, .inl (not_lt.1 he)⟩
    rw [hw] at hwhole
    cases hwhole
  have hm : ((binary x).mantissa : ℚ) < 2 ^ 53 := by exact_mod_cast hc.lt
  calc |value x| = (binary x).mantissa * 2 ^ (binary x).exponent := abs_value x
    _ ≤ (binary x).mantissa * 1 :=
        mul_le_mul_of_nonneg_left (zpow_le_one_of_nonpos₀ one_le_two he.le) (by positivity)
    _ < 2 ^ 53 := by rw [mul_one]; exact hm

/-- The greatest signed 64-bit integer is no double, and is read as the power of two above it. -/
lemma value_ofDecimal_bound {n : ℕ} (hlow : 2 ^ 63 ≤ n + 1) (hhigh : n ≤ 2 ^ 63) (b : Bool) :
    (ofDecimal b n 0).isFinite = true ∧
      value (ofDecimal b n 0) = (if b then -1 else 1) * 2 ^ 63 := by
  have hc : Canonical (2 ^ 52) 11 :=
    ⟨by norm_num, by norm_num, by norm_num, by norm_num, .inr le_rfl⟩
  have hlow' : (2 : ℚ) ^ 63 ≤ n + 1 := by exact_mod_cast hlow
  have hhigh' : (n : ℚ) ≤ 2 ^ 63 := by exact_mod_cast hhigh
  have hv : (interval ⟨b, 2 ^ 52, 11⟩).Contains (n * 10 ^ (0 : ℤ)) := by
    rw [contains_interval_iff hc.pos, zpow_zero, mul_one]
    dsimp only
    rw [if_pos (by norm_num), if_pos (by norm_num), le_div_iff₀ (by norm_num),
      div_le_iff₀ (by norm_num)]
    constructor
    · norm_num at hlow' ⊢
      linarith
    · norm_num at hhigh' ⊢
      linarith
  obtain ⟨hfinite, hbinary⟩ := binary_ofDecimal hc hv b
  refine ⟨hfinite, ?_⟩
  rw [value, hbinary]
  norm_num

/-- The texts of the bounds count as `-2 ^ 63` and as `2 ^ 63`. -/
lemma value_toFloat_bounds :
    ((Json.string (Text.signedNumeral Text.int64Min)).toFloat.isFinite = true ∧
      value (Json.string (Text.signedNumeral Text.int64Min)).toFloat = -2 ^ 63) ∧
    ((Json.string (Text.signedNumeral Text.int64Max)).toFloat.isFinite = true ∧
      value (Json.string (Text.signedNumeral Text.int64Max)).toFloat = 2 ^ 63) := by
  have hmin : decide (Text.int64Min < 0) = true := by decide
  have hmax : decide (Text.int64Max < 0) = false := by decide
  obtain ⟨hlow, hlow'⟩ :=
    value_ofDecimal_bound (n := Text.int64Min.natAbs) (by decide) (by decide) true
  obtain ⟨hhigh, hhigh'⟩ :=
    value_ofDecimal_bound (n := Text.int64Max.natAbs) (by decide) (by decide) false
  rw [toFloat_signedNumeral, toFloat_signedNumeral, hmin, hmax, hlow', hhigh']
  exact ⟨⟨hlow, by norm_num⟩, hhigh, by norm_num⟩

/-- The text of a whole double counts as the double brought between the bounds. -/
lemma value_toFloat_display_of_isWhole (hw : isWhole x = true) :
    (Json.string (display x)).toFloat.isFinite = true ∧
      value (Json.string (display x)).toFloat = max (-2 ^ 63) (min (2 ^ 63) (value x)) := by
  obtain ⟨⟨hminfinite, hminvalue⟩, hmaxfinite, hmaxvalue⟩ := value_toFloat_bounds
  have hmax : Text.int64Max = 2 ^ 63 - 1 := by decide
  have hmin : Text.int64Min = -2 ^ 63 := by decide
  rw [display, hw, if_pos rfl, ← toInt_eq_value hw]
  rcases lt_or_ge (toInt x) Text.int64Min with hlow | hlow
  · have hclamp : toInt64 x = Text.int64Min := by
      rw [toInt64]
      omega
    have hcast : (toInt x : ℚ) ≤ -2 ^ 63 := by
      exact_mod_cast (hmin ▸ hlow.le : toInt x ≤ -2 ^ 63)
    rw [hclamp, hminvalue, min_eq_right (by linarith), max_eq_left hcast]
    exact ⟨hminfinite, rfl⟩
  rcases le_or_gt (toInt x) Text.int64Max with hhigh | hhigh
  · have hclamp : toInt64 x = toInt x := by
      rw [toInt64]
      omega
    have hcast : (-2 ^ 63 : ℚ) ≤ toInt x := by
      exact_mod_cast (hmin ▸ hlow : -2 ^ 63 ≤ toInt x)
    have hcast' : (toInt x : ℚ) ≤ 2 ^ 63 := by
      exact_mod_cast (by omega : toInt x ≤ 2 ^ 63)
    obtain ⟨hfinite, hsame⟩ := value_ofDecimal_toInt hw
    rw [hclamp, toFloat_signedNumeral, min_eq_right hcast', max_eq_right hcast, toInt_eq_value hw]
    exact ⟨hfinite, hsame⟩
  · have hclamp : toInt64 x = Text.int64Max := by
      rw [toInt64]
      omega
    have hcast : (2 ^ 63 : ℚ) ≤ toInt x := by
      exact_mod_cast (by omega : 2 ^ 63 ≤ toInt x)
    rw [hclamp, hmaxvalue, min_eq_left hcast, max_eq_right (by norm_num)]
    exact ⟨hmaxfinite, rfl⟩

/-- What the text of a double counts as: the double itself, brought between the bounds of the signed
64-bit integers. -/
lemma value_toFloat_display (hx : x.isFinite = true) :
    (Json.string (display x)).toFloat.isFinite = true ∧
      value (Json.string (display x)).toFloat = max (-2 ^ 63) (min (2 ^ 63) (value x)) := by
  cases hw : isWhole x with
  | false =>
    obtain ⟨hfinite, hbinary⟩ := binary_toFloat_display hx hw
    obtain ⟨hlow, hhigh⟩ := abs_lt.1 (abs_value_lt hx hw)
    have hsame : value (Json.string (display x)).toFloat = value x := by
      rw [value, value, hbinary]
    refine ⟨hfinite, ?_⟩
    rw [hsame, min_eq_right (by linarith), max_eq_right (by linarith)]
  | true => exact value_toFloat_display_of_isWhole hw

end Double

namespace Number

/-- The number that a JSON number is. -/
def value : Number → ℚ
  | integer n => n
  | double x => Double.value x

/-- The numbers that JSON values hold: whole ones of 64 bits, with or without a sign, and finite
doubles. -/
def Proper : Number → Prop
  | integer n => fits n = true
  | double x => x.isFinite = true

/-- Whether a number is a double beyond the signed 64-bit integers. -/
def Beyond : Number → Prop
  | integer _ => False
  | double x => Double.value x < Text.int64Min ∨ Text.int64Max < Double.value x

variable {m n : Number} {k : ℤ}

/-- What arithmetic computes is a number that JSON values hold. -/
lemma proper_of_ofFloat {x : Float} (h : Json.ofFloat x = .number n) : n.Proper := by
  rw [Json.ofFloat] at h
  split at h
  · next hsafe =>
    obtain rfl := Json.number.inj h
    rw [Bool.and_eq_true, decide_eq_true_iff] at hsafe
    have hbound : Json.safeInteger.natAbs = 9007199254740991 := rfl
    have hmin : Text.int64Min = -9223372036854775808 := rfl
    have hmax : (Text.wordBound : ℤ) = 18446744073709551616 := by decide
    rw [Proper, fits, Bool.and_eq_true, decide_eq_true_iff, decide_eq_true_iff]
    omega
  · split at h
    · next hfinite =>
      obtain rfl := Json.number.inj h
      exact hfinite
    · cases h

/-- A whole value is printed in its own digits, unless it lies beyond the bounds. -/
lemma display_of_value_eq (hn : n.Proper) (hb : ¬ n.Beyond) (hk : n.value = k) :
    Json.displayNumber n = Text.signedNumeral k := by
  cases n with
  | integer j =>
    rw [← Int.cast_inj.1 (hk : (j : ℚ) = k)]
    rfl
  | double x =>
    obtain ⟨hwhole, hint⟩ := Double.toInt_of_value_eq hn hk
    rw [Beyond, not_or, not_lt, not_lt] at hb
    rw [value] at hk
    rw [hk, Int.cast_le, Int.cast_le] at hb
    rw [Json.displayNumber, Double.display, hwhole, if_pos rfl, Double.toInt64, hint,
      min_eq_right hb.2, max_eq_right hb.1]

/-- Beyond the bounds there are only whole doubles. -/
lemma isWhole_of_beyond {x : Float} (hx : x.isFinite = true) (hb : (double x).Beyond) :
    Double.isWhole x = true := by
  by_contra hw
  obtain ⟨hlow, hhigh⟩ := abs_lt.1 (Double.abs_value_lt hx (Bool.eq_false_of_not_eq_true hw))
  rcases hb with hb | hb
  · rw [Text.int64Min] at hb
    push_cast at hb
    linarith
  · rw [Text.int64Max] at hb
    push_cast at hb
    linarith

/-- Beyond the bounds the nearer one is printed. -/
lemma display_of_beyond (hn : n.Proper) (hb : n.Beyond) : Json.displayNumber n =
    Text.signedNumeral (if 0 < n.value then Text.int64Max else Text.int64Min) := by
  cases n with
  | integer j => exact hb.elim
  | double x =>
    have hwhole := isWhole_of_beyond hn hb
    have hvalue := Double.toInt_eq_value hwhole
    rw [Json.displayNumber, Double.display, hwhole, if_pos rfl, Double.toInt64, value]
    rw [Beyond, ← hvalue, Int.cast_lt, Int.cast_lt] at hb
    simp only [← hvalue, Int.cast_pos]
    have hmin : Text.int64Min = -9223372036854775808 := rfl
    have hmax : Text.int64Max = 9223372036854775807 := rfl
    congr 1
    split <;> omega

/-- A number that is not whole is a double, and its text has a point. -/
lemma point_mem_display (hn : n.Proper) (hk : ∀ k : ℤ, n.value ≠ k) :
    ∃ x : Float, n = .double x ∧ x.isFinite = true ∧ Double.isWhole x = false ∧
      '.' ∈ Json.displayNumber n := by
  cases n with
  | integer j => exact absurd rfl (hk j)
  | double x =>
    have hw : Double.isWhole x = false := by
      by_contra hw
      exact hk _ (Double.toInt_eq_value (Bool.eq_true_of_not_eq_false hw)).symm
    obtain ⟨t, u, hdisplay, -⟩ := Double.display_of_not_isWhole hn hw
    refine ⟨x, rfl, hn, hw, ?_⟩
    rw [Json.displayNumber, hdisplay]
    split <;> simp

lemma fits_iff {j : ℤ} : fits j = true ↔ Text.int64Min ≤ j ∧ j < Text.wordBound := by
  rw [fits, Bool.and_eq_true, decide_eq_true_iff, decide_eq_true_iff]

/-- A number is read back from its text as the double it counts as, unless it lies beyond the bounds
and is not the power of two at the upper one. -/
lemma toFloat_display_beq_iff (hn : n.Proper) :
    ((Json.string (Json.displayNumber n)).toFloat == n.toFloat) = true ↔
      (n.Beyond → n.value = 2 ^ 63) := by
  cases n with
  | integer j =>
    have hj : j.natAbs < 2 ^ 64 := by
      have hbounds := fits_iff.1 hn
      have hmin : Text.int64Min = -2 ^ 63 := rfl
      have hmax : (Text.wordBound : ℤ) = 2 ^ 64 := by decide
      omega
    refine iff_of_true ?_ False.elim
    rw [Json.displayNumber, Double.toFloat_signedNumeral, Double.ofDecimal_eq_ofInt hj, toFloat]
    exact Double.beq_self (Double.isNaN_ofInt j)
  | double x =>
    obtain ⟨hfinite, hclamped⟩ := Double.value_toFloat_display hn
    rw [Json.displayNumber, toFloat, Double.beq_iff_value_eq hfinite hn, hclamped, value]
    have hmin : (Text.int64Min : ℚ) = -2 ^ 63 := by norm_num [Text.int64Min]
    have hmax : (Text.int64Max : ℚ) = 2 ^ 63 - 1 := by norm_num [Text.int64Max]
    constructor
    · intro hsame hb
      have hvalue := Double.toInt_eq_value (isWhole_of_beyond hn hb)
      have hlow : -2 ^ 63 ≤ Double.value x := hsame ▸ le_max_left _ _
      have hhigh : Double.value x ≤ 2 ^ 63 := by
        rw [← hsame]
        exact max_le (by norm_num) (min_le_left _ _)
      have habove : (2 ^ 63 : ℚ) < Double.value x + 1 := by
        rcases hb with hb | hb
        · linarith
        · linarith
      rw [← hvalue] at hhigh habove ⊢
      norm_cast at hhigh habove ⊢
      omega
    · intro hbound
      by_cases hb : (double x).Beyond
      · rw [hbound hb, min_self, max_eq_right (by norm_num)]
      · rw [Beyond, not_or, not_lt, not_lt] at hb
        rw [min_eq_right (by linarith), max_eq_right (by linarith)]

lemma point_not_mem_signedNumeral (k : ℤ) : '.' ∉ Text.signedNumeral k := by
  have hnumeral : '.' ∉ Text.numeral k.natAbs := fun h =>
    absurd (Text.isDigit_of_mem_numeral h) (by decide)
  rw [Text.signedNumeral]
  split
  · exact fun h => (List.mem_cons.1 h).elim (by decide) hnumeral
  · exact hnumeral

/-- Numbers within the bounds are told by their texts. -/
lemma value_eq_of_display_eq (hm : m.Proper) (hn : n.Proper) (hbm : ¬ m.Beyond) (hbn : ¬ n.Beyond)
    (h : Json.displayNumber m = Json.displayNumber n) : m.value = n.value := by
  by_cases hmk : ∃ k : ℤ, m.value = k <;> by_cases hnk : ∃ k : ℤ, n.value = k
  · obtain ⟨j, hj⟩ := hmk
    obtain ⟨k, hk⟩ := hnk
    rw [display_of_value_eq hm hbm hj, display_of_value_eq hn hbn hk] at h
    rw [hj, hk, Text.signedNumeral_injective h]
  · obtain ⟨j, hj⟩ := hmk
    obtain ⟨-, -, -, -, hpoint⟩ := point_mem_display hn (not_exists.1 hnk)
    rw [← h, display_of_value_eq hm hbm hj] at hpoint
    exact absurd hpoint (point_not_mem_signedNumeral j)
  · obtain ⟨k, hk⟩ := hnk
    obtain ⟨-, -, -, -, hpoint⟩ := point_mem_display hm (not_exists.1 hmk)
    rw [h, display_of_value_eq hn hbn hk] at hpoint
    exact absurd hpoint (point_not_mem_signedNumeral k)
  · obtain ⟨x, rfl, hx, hwx, -⟩ := point_mem_display hm (not_exists.1 hmk)
    obtain ⟨y, rfl, hy, hwy, -⟩ := point_mem_display hn (not_exists.1 hnk)
    have hreadx := (Double.binary_toFloat_display hx hwx).2
    have hready := (Double.binary_toFloat_display hy hwy).2
    have hread : Double.display x = Double.display y := h
    rw [value, value, Double.value, Double.value, ← hreadx, ← hready, hread]

/-- What lies beyond the bounds is neither of them. -/
lemma value_ne_of_beyond (hb : n.Beyond) :
    n.value ≠ Text.int64Max ∧ n.value ≠ Text.int64Min := by
  cases n with
  | integer j => exact hb.elim
  | double x =>
    have hlt : (Text.int64Min : ℚ) < Text.int64Max := by
      exact_mod_cast (by decide : Text.int64Min < Text.int64Max)
    rcases hb with hb | hb
    · exact ⟨(hb.trans hlt).ne, hb.ne⟩
    · exact ⟨hb.ne', (hlt.trans hb).ne'⟩

/-- **Numbers print faithfully, but for doubles beyond the signed 64-bit integers.** The text of a
number that JSON holds, or that arithmetic computes, counts as the double that the number counts
as; a whole value is printed in its own digits; and two numbers of one text are equal. All of this
holds of every integer, and of every double between the bounds. A double beyond them is printed as
the nearer bound, so not in its own digits, and is read back only if it is the power of two next to
the upper bound. -/
theorem display_faithful_iff (hn : n.Proper ∨ ∃ x, Json.ofFloat x = .number n) :
    (((Json.string (Json.display (.number n))).toFloat == (Json.number n).toFloat) = true ↔
      (n.Beyond → n.value = 2 ^ 63)) ∧
    (∀ k : ℤ, n.value = k → (Json.display (.number n) = Text.signedNumeral k ↔ ¬ n.Beyond)) ∧
    (∀ m : Number, m.Proper → ¬ m.Beyond → ¬ n.Beyond →
      Json.display (.number m) = Json.display (.number n) → m.value = n.value) ∧
    (n.Beyond → Json.display (.number n) =
      Text.signedNumeral (if 0 < n.value then Text.int64Max else Text.int64Min)) := by
  have hproper : n.Proper := hn.elim id fun ⟨_, hx⟩ => proper_of_ofFloat hx
  refine ⟨toFloat_display_beq_iff hproper, fun k hk => ⟨fun htext hb => ?_, fun hb => ?_⟩,
    fun m hm hbm hbn h => value_eq_of_display_eq hm hproper hbm hbn h, display_of_beyond hproper⟩
  · obtain ⟨hmax, hmin⟩ := value_ne_of_beyond hb
    have hbound := Text.signedNumeral_injective ((display_of_beyond hproper hb).symm.trans htext)
    rw [hk, ← hbound] at hmax hmin
    by_cases hpos : 0 < n.value
    · exact hmax (by rw [if_pos hpos])
    · exact hmin (by rw [if_neg hpos])
  · exact display_of_value_eq hproper hb hk

/-- The least positive double, with 324 places after the point, is read back. -/
theorem display_faithful_least : (double 5e-324).Proper ∧
    ((Json.string (Json.display (.number (.double 5e-324)))).toFloat == 5e-324) = true := by
  have hproper : (double 5e-324).Proper := by
    change (5e-324 : Float).isFinite = true
    decide +kernel
  refine ⟨hproper, (display_faithful_iff (.inl hproper)).1.2 fun hb => ?_⟩
  exact absurd (isWhole_of_beyond hproper hb) (by decide +kernel)

/-- The doubles `10 ^ 20` and `10 ^ 21` have one text, and it counts as neither. -/
theorem display_of_great_doubles :
    (double 1e20).Proper ∧ (double 1e20).value = 10 ^ 20 ∧
      (double 1e21).Proper ∧ (double 1e21).value = 10 ^ 21 ∧
      Json.display (.number (.double 1e20)) = Json.display (.number (.double 1e21)) ∧
      ¬ ((Json.string (Json.display (.number (.double 1e20)))).toFloat == 1e20) = true := by
  have hproper : (double 1e20).Proper ∧ (double 1e21).Proper := by
    change (1e20 : Float).isFinite = true ∧ (1e21 : Float).isFinite = true
    decide
  have hvalue : (double 1e20).value = 10 ^ 20 := by
    have hparts : (Double.binary 1e20).negative = false ∧
        (Double.binary 1e20).mantissa = 6103515625000000 ∧ (Double.binary 1e20).exponent = 14 := by
      decide
    rw [value, Double.value, hparts.1, hparts.2.1, hparts.2.2]
    norm_num
  have hvalue' : (double 1e21).value = 10 ^ 21 := by
    have hparts : (Double.binary 1e21).negative = false ∧
        (Double.binary 1e21).mantissa = 7629394531250000 ∧ (Double.binary 1e21).exponent = 17 := by
      decide
    rw [value, Double.value, hparts.1, hparts.2.1, hparts.2.2]
    norm_num
  have hbeyond : (double 1e20).Beyond := by
    refine .inr (lt_of_lt_of_eq ?_ hvalue.symm)
    norm_num [Text.int64Max]
  have hbeyond' : (double 1e21).Beyond := by
    refine .inr (lt_of_lt_of_eq ?_ hvalue'.symm)
    norm_num [Text.int64Max]
  refine ⟨hproper.1, hvalue, hproper.2, hvalue', ?_, fun hread => ?_⟩
  · change Json.displayNumber (double 1e20) = Json.displayNumber (double 1e21)
    rw [display_of_beyond hproper.1 hbeyond, display_of_beyond hproper.2 hbeyond', hvalue, hvalue',
      if_pos (by norm_num), if_pos (by norm_num)]
  · have hbound := (toFloat_display_beq_iff hproper.1).1 hread hbeyond
    rw [hvalue] at hbound
    norm_num at hbound

end Number

end HtmlTemplate
