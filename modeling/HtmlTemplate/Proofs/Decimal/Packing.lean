import Mathlib.Tactic.NormNum
import HtmlTemplate.Proofs.Decimal.Rounding

/-!
Doubles and their parts. Arithmetic unpacks a double into the same sign, mantissa and exponent that
make up its exact value, and packs what it computes into bits from which the same parts come back.
So two finite doubles compare as their values.
-/

namespace HtmlTemplate.Double

open Float.Model Float.Model.UnpackedFloat

variable {x y : Float} {m : ℕ} {e : ℤ}

/-! ### Unpacking -/

/-- The bits of a double. -/
def bits (x : Float) : BitVec Format.binary64.numBits := x.toModel.toBits.toBitVec

lemma toNat_unpackMantissa (b : BitVec Format.binary64.numBits) :
    (unpackMantissa b).toNat = b.toNat % hiddenBit := by
  simp [unpackMantissa, BitVec.extractLsb, hiddenBit]

lemma toNat_unpackExponent (b : BitVec Format.binary64.numBits) :
    (unpackExponent b).toNat = b.toNat >>> 52 % 2048 := by
  simp [unpackExponent, BitVec.extractLsb]

lemma toNat_unpackSign (b : BitVec Format.binary64.numBits) :
    (unpackSign b).toNat = b.toNat >>> 63 := by
  have hlt : b.toNat < 2 ^ 64 := b.isLt
  change (BitVec.extractLsb 63 63 b).toNat = _
  rw [BitVec.extractLsb_toNat]
  omega

/-- The parts of a double are cut out of its bits. -/
lemma binary_eq (x : Float) : binary x =
    if unpackExponent (bits x) = 0#_ then
      ⟨unpackSign (bits x) == 1#1, (unpackMantissa (bits x)).toNat, -1074⟩
    else
      ⟨unpackSign (bits x) == 1#1, hiddenBit + (unpackMantissa (bits x)).toNat,
        (unpackExponent (bits x)).toNat - 1075⟩ := by
  have hsign : (unpackSign (bits x) == 1#1) = ((bits x).toNat >>> 63 == 1) := by
    rw [← toNat_unpackSign]
    generalize unpackSign (bits x) = s
    revert s
    decide
  have hzero : unpackExponent (bits x) = 0#_ ↔ (bits x).toNat >>> 52 % 2048 = 0 := by
    rw [← toNat_unpackExponent, ← BitVec.toNat_inj]
    rfl
  rw [hsign, toNat_unpackMantissa, toNat_unpackExponent]
  simp only [hzero]
  rfl

/-- The sign of a number as the arithmetic has it. -/
def signOf (negative : Bool) : Sign := if negative then .negative else .positive

lemma signOf_inj {a b : Bool} : signOf a = signOf b ↔ a = b := by
  cases a <;> cases b <;> simp [signOf]

lemma ofBitVec_eq_signOf (b : BitVec 1) : Sign.ofBitVec b = signOf (b == 1#1) := by
  obtain rfl | rfl : b = 0#1 ∨ b = 1#1 := by
    revert b
    decide
  · rfl
  · rfl

lemma toNat_append_one (m : BitVec 52) : (1#1 ++ m).toNat = hiddenBit + m.toNat := by
  rw [BitVec.toNat_append, ← Nat.shiftLeft_add_eq_or_of_lt m.isLt]
  rfl

lemma finite_congr {s s' : Sign} {m' : ℕ} {e' : ℤ} {h : 0 < m} {h' : 0 < m'} (hs : s = s')
    (hm : m = m') (he : e = e') : UnpackedFloat.finite s m e h = .finite s' m' e' h' := by
  subst hs hm he
  rfl

section Unpack

variable {b : BitVec Format.binary64.numBits}

lemma unpack_zero (he : unpackExponent b = 0#_) (hm : unpackMantissa b = 0#_) :
    UnpackedFloat.unpack Format.binary64 b = .zero (signOf (unpackSign b == 1#1)) := by
  unfold UnpackedFloat.unpack
  dsimp only
  rw [he, if_neg (by decide), if_pos rfl, dif_pos hm, ofBitVec_eq_signOf]

lemma unpack_subnormal (he : unpackExponent b = 0#_) (hm : 0 < (unpackMantissa b).toNat) :
    UnpackedFloat.unpack Format.binary64 b =
      .finite (signOf (unpackSign b == 1#1)) (unpackMantissa b).toNat (-1074) hm := by
  have hne : unpackMantissa b ≠ 0#_ := fun h => by
    rw [h] at hm
    exact Nat.lt_irrefl 0 hm
  unfold UnpackedFloat.unpack
  dsimp only
  rw [he, if_neg (by decide), if_pos rfl, dif_neg hne, ofBitVec_eq_signOf]
  rfl

lemma unpack_normal (hlow : 0 < (unpackExponent b).toNat)
    (hhigh : (unpackExponent b).toNat < 2047) :
    UnpackedFloat.unpack Format.binary64 b =
      .finite (signOf (unpackSign b == 1#1)) (hiddenBit + (unpackMantissa b).toNat)
        ((unpackExponent b).toNat - 1075) (Nat.add_pos_left (by decide) _) := by
  have hzero : unpackExponent b ≠ 0#_ := fun h => by
    rw [h] at hlow
    exact Nat.lt_irrefl 0 hlow
  have hmax : unpackExponent b ≠ -1#_ := fun h => by
    rw [h] at hhigh
    exact Nat.lt_irrefl 2047 hhigh
  unfold UnpackedFloat.unpack
  dsimp only
  rw [if_neg hmax, if_neg hzero]
  exact finite_congr (ofBitVec_eq_signOf _) (toNat_append_one _) rfl

/-- The greatest exponent is that of infinity and of what is no number. -/
lemma isFinite_unpack_max (h : (unpackExponent b).toNat = 2047) :
    (UnpackedFloat.unpack Format.binary64 b).isFinite = false := by
  have hmax : unpackExponent b = -1#_ := BitVec.eq_of_toNat_eq h
  unfold UnpackedFloat.unpack
  dsimp only
  rw [if_pos hmax]
  split <;> rfl

end Unpack

/-- A finite double unpacks to its parts. -/
lemma unpack_of_isFinite (hx : x.isFinite = true) :
    (binary x).mantissa = 0 ∧ x.toModel.unpack = .zero (signOf (binary x).negative) ∨
      ∃ hc : Canonical (binary x).mantissa (binary x).exponent,
        x.toModel.unpack = .finite (signOf (binary x).negative) (binary x).mantissa
          (binary x).exponent hc.pos := by
  change (UnpackedFloat.unpack Format.binary64 (bits x)).isFinite = true at hx
  change _ ∧ UnpackedFloat.unpack Format.binary64 (bits x) = _ ∨
    ∃ _, UnpackedFloat.unpack Format.binary64 (bits x) = _
  have hbinary := binary_eq x
  generalize bits x = b at hx hbinary ⊢
  have hmantissa : (unpackMantissa b).toNat < 2 ^ 52 := (unpackMantissa b).isLt
  have hexponent : (unpackExponent b).toNat < 2 ^ 11 := (unpackExponent b).isLt
  by_cases hzero : unpackExponent b = 0#_
  · rw [if_pos hzero] at hbinary
    rw [hbinary]
    rcases Nat.eq_zero_or_pos (unpackMantissa b).toNat with hm | hm
    · exact .inl ⟨hm, unpack_zero hzero (BitVec.eq_of_toNat_eq hm)⟩
    · have hc : Canonical (unpackMantissa b).toNat (-1074) :=
        ⟨hm, by omega, by norm_num, by norm_num, .inl rfl⟩
      exact .inr ⟨hc, unpack_subnormal hzero hm⟩
  · have hlow : 0 < (unpackExponent b).toNat :=
      Nat.pos_of_ne_zero fun h => hzero (BitVec.eq_of_toNat_eq h)
    have hhigh : (unpackExponent b).toNat ≠ 2047 := fun h => by
      rw [isFinite_unpack_max h] at hx
      cases hx
    have hhidden : hiddenBit = 2 ^ 52 := rfl
    have hc : Canonical (hiddenBit + (unpackMantissa b).toNat) ((unpackExponent b).toNat - 1075) :=
      ⟨by omega, by omega, by omega, by omega, .inr (by omega)⟩
    rw [if_neg hzero] at hbinary
    rw [hbinary]
    exact .inr ⟨hc, unpack_normal hlow (by omega)⟩

lemma isNaN_of_isFinite (hx : x.isFinite = true) : x.isNaN = false := by
  change x.toModel.unpack.isNaN = false
  rcases unpack_of_isFinite hx with ⟨-, hu⟩ | ⟨_, hu⟩ <;> rw [hu] <;> rfl

/-! ### Packing -/

lemma unpackSign_packComponents {spec : Format} (s : Sign) (e : BitVec spec.exponentBits)
    (m : BitVec spec.mantissaBitsWithoutImplicit) :
    unpackSign (packComponents spec s e m) = s.toBitVec := by
  ext i hi
  obtain rfl : i = 0 := by omega
  unfold unpackSign packComponents
  simp [BitVec.getLsbD_append, BitVec.getElem_append]

lemma signOf_toBitVec (s : Sign) : signOf (s.toBitVec == 1#1) = s := by
  cases s <;> rfl

/-- The bits of a positive double. -/
lemma pack_of_canonical (hc : Canonical m e) (s : Sign) :
    UnpackedFloat.pack Format.binary64 (.finite s m e hc.pos) =
      if 2 ^ 52 ≤ m then
        packComponents Format.binary64 s (BitVec.ofNat 11 (e + 1075).toNat) (BitVec.ofNat 52 m)
      else packComponents Format.binary64 s 0#11 (BitVec.ofNat 52 m) := by
  have hleast := hc.least_le
  have hmost := hc.le
  have hlog : m.log2 < 53 := (Nat.log2_lt hc.pos.ne').2 hc.lt
  have hfull : m.log2 + 1 = Format.binary64.mantissaBits ↔ 2 ^ 52 ≤ m := by
    rw [← Nat.le_log2 hc.pos.ne']
    change m.log2 + 1 = 53 ↔ _
    omega
  have hexp : e + Format.binary64.exponentBias + (52 : ℕ) = e + 1075 := by
    change e + 1023 + 52 = _
    ring
  unfold UnpackedFloat.pack
  simp only [hfull, hexp]
  exact if_neg (by omega)

/-- A positive double is not changed by packing. -/
lemma unpack_pack (hc : Canonical m e) (s : Sign) :
    (pack (.finite s m e hc.pos)).unpack = .finite s m e hc.pos := by
  have hleast := hc.least_le
  have hmost := hc.le
  have hlt := hc.lt
  change UnpackedFloat.unpack Format.binary64
    (UnpackedFloat.pack Format.binary64 (.finite s m e hc.pos)) = _
  rw [pack_of_canonical hc]
  by_cases hm : 2 ^ 52 ≤ m
  · rw [if_pos hm]
    have hexp : (BitVec.ofNat 11 (e + 1075).toNat).toNat = (e + 1075).toNat := by
      rw [BitVec.toNat_ofNat, Nat.mod_eq_of_lt (by omega)]
    have hmantissa : hiddenBit + (BitVec.ofNat 52 m).toNat = m := by
      rw [BitVec.toNat_ofNat, show hiddenBit = 2 ^ 52 from rfl]
      omega
    rw [unpack_normal (by rw [unpackExponent_packComponents, hexp]; omega)
      (by rw [unpackExponent_packComponents, hexp]; omega)]
    refine finite_congr ?_ ?_ ?_
    · rw [unpackSign_packComponents, signOf_toBitVec]
    · rw [unpackMantissa_packComponents, hmantissa]
    · rw [unpackExponent_packComponents, hexp]
      omega
  · rw [if_neg hm]
    have hmantissa : (BitVec.ofNat 52 m).toNat = m := by
      rw [BitVec.toNat_ofNat, Nat.mod_eq_of_lt (by omega)]
    rw [unpack_subnormal unpackExponent_packComponents
      (by rw [unpackMantissa_packComponents, hmantissa]; exact hc.pos)]
    refine finite_congr ?_ ?_ (hc.full.resolve_right hm).symm
    · rw [unpackSign_packComponents, signOf_toBitVec]
    · rw [unpackMantissa_packComponents, hmantissa]

lemma isNaN_unpack {b : BitVec Format.binary64.numBits}
    (h : unpackExponent b = -1#_ → unpackMantissa b = 0#_) :
    (UnpackedFloat.unpack Format.binary64 b).isNaN = false := by
  unfold UnpackedFloat.unpack
  dsimp only
  by_cases hmax : unpackExponent b = -1#_
  · rw [if_pos hmax, if_pos (h hmax)]
    rfl
  · rw [if_neg hmax]
    by_cases hzero : unpackExponent b = 0#_
    · rw [if_pos hzero]
      by_cases hm : unpackMantissa b = 0#_
      · rw [dif_pos hm]
        rfl
      · rw [dif_neg hm]
        rfl
    · rw [if_neg hzero]
      rfl

/-- Only what is no number is packed into the bits of what is no number. -/
lemma isNaN_pack {u : UnpackedFloat} (hu : u.isNaN = false) : (pack u).isNaN = false := by
  refine isNaN_unpack ?_
  change unpackExponent (UnpackedFloat.pack Format.binary64 u) = _ →
    unpackMantissa (UnpackedFloat.pack Format.binary64 u) = _
  fun_cases UnpackedFloat.pack with
  | case1 => cases hu
  | case2 s => simp [packedInfinity]
  | case3 s => simp [packedZero]
  | case4 s m e hm biased h => simp [packedInfinity]
  | case5 s m e hm bits biased hsmall hfull =>
    rw [unpackExponent_packComponents]
    intro hmax
    have hnat := congrArg BitVec.toNat hmax
    change biased % 2048 = 2047 at hnat
    change ¬ 2048 ≤ biased + 1 at hsmall
    omega
  | case6 s m e hm bits biased hsmall hfull =>
    rw [unpackExponent_packComponents]
    intro hmax
    cases hmax

/-! ### Exact values -/

/-- The number that a finite double is. -/
def value (x : Float) : ℚ :=
  (if (binary x).negative then -1 else 1) * ((binary x).mantissa * 2 ^ (binary x).exponent)

lemma isFinite_of_unpack {s : Sign} {hm : 0 < m} (h : x.toModel.unpack = .finite s m e hm) :
    x.isFinite = true := by
  change x.toModel.unpack.isFinite = true
  rw [h]
  rfl

/-- A double that unpacks to a positive number has that number's parts. -/
lemma binary_of_unpack {b : Bool} {hm : 0 < m} (h : x.toModel.unpack = .finite (signOf b) m e hm) :
    binary x = ⟨b, m, e⟩ := by
  rcases unpack_of_isFinite (isFinite_of_unpack h) with ⟨-, hzero⟩ | ⟨hc, hfinite⟩
  · rw [hzero] at h
    cases h
  · rw [hfinite] at h
    injection h with hsign hmantissa hexponent
    rw [← signOf_inj.1 hsign, ← hmantissa, ← hexponent]

/-- The parts of a positive double are told by its value. -/
lemma Canonical.eq_of_value_eq {m' : ℕ} {e' : ℤ} (hc : Canonical m e) (hc' : Canonical m' e')
    (h : (m : ℚ) * 2 ^ e = m' * 2 ^ e') : m = m' ∧ e = e' := by
  have hle := two_pow_totalExponent_le hc.pos.ne' le_rfl e
  have hlt := lt_two_pow_totalExponent (lt_add_one (m : ℚ)) e
  have hle' := two_pow_totalExponent_le hc'.pos.ne' le_rfl e'
  have hlt' := lt_two_pow_totalExponent (lt_add_one (m' : ℚ)) e'
  rw [← h] at hle' hlt'
  have htotal : totalExponent m e = totalExponent m' e' := by
    have := lt_of_two_pow hle hlt'
    have := lt_of_two_pow hle' hlt
    omega
  have he : e = e' := by
    rw [← hc.targetExponent_eq, htotal, hc'.targetExponent_eq]
  refine ⟨?_, he⟩
  rw [he] at h
  exact_mod_cast mul_right_cancel₀ (by positivity) h

/-! ### Comparing -/

lemma beq_finite_iff {s s' : Sign} {m' : ℕ} {e' : ℤ} {h : 0 < m} {h' : 0 < m'} :
    (UnpackedFloat.finite s m e h).beq (.finite s' m' e' h') = true ↔ s = s' ∧ m = m' ∧ e = e' := by
  unfold UnpackedFloat.beq UnpackedFloat.compare
  cases s <;> cases s' <;> dsimp only <;> simp [and_comm]

/-- What counts when numbers are compared: all but the sign of a zero. -/
def compared : UnpackedFloat → UnpackedFloat
  | .zero _ => .zero .positive
  | u => u

lemma isNaN_compared (u : UnpackedFloat) : (compared u).isNaN = u.isNaN := by
  cases u <;> rfl

lemma unpacked_beq_iff {u v : UnpackedFloat} :
    u.beq v = true ↔ u.isNaN = false ∧ compared u = compared v := by
  cases u with
  | notANumber =>
    refine iff_of_false ?_ fun h => by cases h.1
    cases v <;> exact Bool.false_ne_true
  | infinity s =>
    cases v with
    | infinity s' =>
      cases s <;> cases s'
      · exact iff_of_true rfl ⟨rfl, rfl⟩
      · exact iff_of_false Bool.false_ne_true fun h => by cases h.2
      · exact iff_of_false Bool.false_ne_true fun h => by cases h.2
      · exact iff_of_true rfl ⟨rfl, rfl⟩
    | notANumber | zero | finite =>
      refine iff_of_false ?_ fun h => by cases h.2
      cases s <;> exact Bool.false_ne_true
  | zero s =>
    cases v with
    | zero s' => exact iff_of_true rfl ⟨rfl, rfl⟩
    | notANumber => exact iff_of_false Bool.false_ne_true fun h => by cases h.2
    | infinity s' | finite s' =>
      refine iff_of_false ?_ fun h => by cases h.2
      cases s' <;> exact Bool.false_ne_true
  | finite s m e hm =>
    cases v with
    | finite s' m' e' hm' =>
      rw [beq_finite_iff]
      constructor
      · rintro ⟨rfl, rfl, rfl⟩
        exact ⟨rfl, rfl⟩
      · rintro ⟨-, h⟩
        obtain ⟨rfl, rfl, rfl⟩ := UnpackedFloat.finite.inj h
        exact ⟨rfl, rfl, rfl⟩
    | notANumber =>
      refine iff_of_false ?_ fun h => by cases h.2
      cases s <;> exact Bool.false_ne_true
    | infinity s' | zero s' =>
      refine iff_of_false ?_ fun h => by cases h.2
      cases s <;> cases s' <;> exact Bool.false_ne_true

/-- Doubles are equal if they are numbers and the same up to the sign of a zero. -/
lemma beq_iff : (x == y) = true ↔
    x.isNaN = false ∧ compared x.toModel.unpack = compared y.toModel.unpack := unpacked_beq_iff

lemma beq_symm (h : (x == y) = true) : (y == x) = true := by
  obtain ⟨hx, hxy⟩ := beq_iff.1 h
  refine beq_iff.2 ⟨?_, hxy.symm⟩
  change x.toModel.unpack.isNaN = false at hx
  change y.toModel.unpack.isNaN = false
  rw [← isNaN_compared, ← hxy, isNaN_compared, hx]

lemma beq_comm (x y : Float) : (x == y) = (y == x) := Bool.eq_iff_iff.2 ⟨beq_symm, beq_symm⟩

lemma beq_trans {z : Float} (h : (x == y) = true) (h' : (y == z) = true) : (x == z) = true := by
  obtain ⟨hx, hxy⟩ := beq_iff.1 h
  exact beq_iff.2 ⟨hx, hxy.trans (beq_iff.1 h').2⟩

lemma value_of_mantissa_eq_zero (h : (binary x).mantissa = 0) : value x = 0 := by
  rw [value, h]
  simp

/-- **Finite doubles compare as their values.** -/
theorem beq_iff_value_eq (hx : x.isFinite = true) (hy : y.isFinite = true) :
    (x == y) = true ↔ value x = value y := by
  change x.toModel.unpack.beq y.toModel.unpack = true ↔ _
  have hne : ∀ {z : Float}, Canonical (binary z).mantissa (binary z).exponent → value z ≠ 0 := by
    intro z hc
    have := hc.pos
    rw [value]
    split <;> positivity
  rcases unpack_of_isFinite hx with ⟨hzero, hux⟩ | ⟨hc, hux⟩ <;>
    rcases unpack_of_isFinite hy with ⟨hzero', huy⟩ | ⟨hc', huy⟩
  · rw [hux, huy, value_of_mantissa_eq_zero hzero, value_of_mantissa_eq_zero hzero']
    exact iff_of_true rfl rfl
  · rw [hux, huy, value_of_mantissa_eq_zero hzero]
    refine iff_of_false ?_ (hne hc').symm
    cases (binary y).negative <;> exact Bool.false_ne_true
  · rw [hux, huy, value_of_mantissa_eq_zero hzero']
    refine iff_of_false ?_ (hne hc)
    cases (binary x).negative <;> exact Bool.false_ne_true
  · rw [hux, huy, beq_finite_iff, signOf_inj, value, value]
    have hpos := hc.pos
    have hpos' := hc'.pos
    constructor
    · rintro ⟨hsign, hmantissa, hexponent⟩
      rw [hsign, hmantissa, hexponent]
    · intro hvalue
      have hsize : (0 : ℚ) < (binary x).mantissa * 2 ^ (binary x).exponent := by positivity
      have hsize' : (0 : ℚ) < (binary y).mantissa * 2 ^ (binary y).exponent := by positivity
      cases hsign : (binary x).negative <;> cases hsign' : (binary y).negative <;>
        simp only [hsign, hsign', if_true, Bool.false_eq_true, if_false] at hvalue
      · exact ⟨rfl, hc.eq_of_value_eq hc' (by linarith)⟩
      · linarith
      · linarith
      · exact ⟨rfl, hc.eq_of_value_eq hc' (by linarith)⟩

end HtmlTemplate.Double
