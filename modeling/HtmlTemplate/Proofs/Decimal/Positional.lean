import HtmlTemplate.Decimal.Layout
import HtmlTemplate.Expr.Coercion
import HtmlTemplate.Proofs.Text.Numeral
import HtmlTemplate.Proofs.Text.Space
import HtmlTemplate.Proofs.Text.Trim

/-!
Positional notation. Digits with or without a point are read as the decimal they denote, and that
is the number that such a text counts as.
-/

namespace HtmlTemplate

variable {t u : Text}

/-! ### Rows of digits -/

namespace Text

/-- Whether a text is one or more digits. -/
def IsDigits (t : Text) : Prop := t ≠ [] ∧ ∀ c ∈ t, c.isDigit = true

lemma isDigits_numeral (n : ℕ) : (numeral n).IsDigits :=
  ⟨numeral_ne_nil n, fun _ => isDigit_of_mem_numeral⟩

lemma isSpace_of_isDigit {c : Char} (h : c.isDigit = true) : isSpace c = false := by
  by_contra hspace
  have hnot := of_isSpace (P := fun c => c.isDigit = false) (by decide)
    (Bool.eq_true_of_not_eq_false hspace)
  rw [h] at hnot
  cases hnot

/-- Zeros in front change nothing. -/
lemma digitsValue_repeated_append (n : ℕ) (t : Text) :
    digitsValue (repeated n '0' ++ t) = digitsValue t := by
  induction n with
  | zero => rfl
  | succ n ih => exact ih

end Text

namespace Double

lemma span_digits (ht : t.IsDigits) : t.span Char.isDigit = (t, []) := by
  rw [List.span_eq_takeWhile_dropWhile, List.takeWhile_eq_self_iff.2 ht.2,
    List.dropWhile_eq_nil_iff.2 ht.2]

/-- A row of digits is read as the whole number it denotes. -/
lemma unsigned?_digits (b : Bool) (ht : t.IsDigits) :
    unsigned? b t = some (ofDecimal b (Text.digitsValue t) 0) := by
  rw [unsigned?, span_digits ht]
  dsimp only
  rw [if_neg (fun h => ht.1 h.1), List.append_nil]
  rfl

/-- Digits with a point are read as what they denote without it, and each digit after the point is
one power of ten less. -/
lemma unsigned?_point (b : Bool) (ht : t.IsDigits) (hu : u.IsDigits) :
    unsigned? b (t ++ '.' :: u) =
      some (ofDecimal b (Text.digitsValue (t ++ u)) (-(u.length : ℤ))) := by
  have hspan : (t ++ '.' :: u).span Char.isDigit = (t, '.' :: u) := by
    rw [List.span_eq_takeWhile_dropWhile, Text.takeWhile_append_cons ht.2 rfl,
      Text.dropWhile_append_cons ht.2 rfl]
  simp only [unsigned?, hspan, span_digits hu]
  rw [if_neg (fun h => ht.1 h.1)]
  change some (ofDecimal b _ (0 - (u.length : ℤ))) = _
  rw [zero_sub]

/-- A sign may stand before a numeral. -/
lemma read?_of_digit {c : Char} (hc : c.isDigit = true) (b : Bool) (t : Text) :
    read? (if b then '-' :: c :: t else c :: t) = unsigned? b (c :: t) := by
  have hsplit : splitSign (if b then '-' :: c :: t else c :: t) = (b, c :: t) := by
    cases b with
    | true => rfl
    | false =>
      rw [if_neg Bool.false_ne_true, splitSign]
      · rintro _ ⟨⟩
        cases hc
      · rintro _ ⟨⟩
        cases hc
  have hlower : c.toLower = c := by
    rw [Char.isDigit_iff_toNat] at hc
    refine dif_neg fun hupper => ?_
    rw [ge_iff_le, UInt32.le_iff_toNat_le] at hupper
    exact absurd (hupper.1.trans hc.2) (by decide)
  have hname : ∀ w : Text, w.head?.any Char.isDigit = false → (c :: t).map Char.toLower ≠ w := by
    rintro w hw rfl
    rw [List.map_cons, hlower, List.head?_cons, Option.any_some, hc] at hw
    cases hw
  rw [read?, hsplit]
  dsimp only
  rw [if_neg (not_or.2 ⟨hname _ (by decide), hname _ (by decide)⟩), if_neg (hname _ (by decide))]

/-! ### Layout -/

/-- Positional notation with places after the point is digits on both sides of it. -/
lemma exists_positional {d : Decimal} (hd : d.exponent < 0) (ending : Text) : ∃ t u : Text,
    d.positional ending = t ++ '.' :: u ∧ t.IsDigits ∧ u.IsDigits ∧
      Text.digitsValue (t ++ u) = d.digits ∧ -(u.length : ℤ) = d.exponent := by
  obtain ⟨s, hs⟩ : ∃ s, s = Text.numeral d.digits := ⟨_, rfl⟩
  have hdigits : s.IsDigits := hs ▸ Text.isDigits_numeral d.digits
  have hvalue : Text.digitsValue s = d.digits := hs ▸ Text.digitsValue_numeral d.digits
  have hlen : d.point = s.length + d.exponent := hs ▸ rfl
  rw [Decimal.positional, if_neg (by omega), ← hs]
  by_cases hpoint : 0 < d.point
  · rw [if_pos hpoint]
    refine ⟨_, _, rfl, ⟨?_, fun c hc => ?_⟩, ⟨?_, fun c hc => ?_⟩, ?_, ?_⟩
    · rw [← List.length_pos_iff, List.length_take]
      omega
    · exact hdigits.2 c (List.mem_of_mem_take hc)
    · rw [← List.length_pos_iff, List.length_drop]
      omega
    · exact hdigits.2 c (List.mem_of_mem_drop hc)
    · rw [List.take_append_drop, hvalue]
    · rw [List.length_drop]
      omega
  · rw [if_neg hpoint]
    have hzeros : Text.digitsValue (['0'] ++ (Text.repeated (-d.point).toNat '0' ++ s)) =
        d.digits := by
      rw [← hvalue, ← Text.digitsValue_repeated_append (-d.point).toNat s]
      rfl
    refine ⟨['0'], Text.repeated (-d.point).toNat '0' ++ s, rfl, ⟨List.cons_ne_nil _ _, ?_⟩,
      ⟨?_, fun c hc => ?_⟩, hzeros, ?_⟩
    · simp
    · exact List.append_ne_nil_of_right_ne_nil _ hdigits.1
    · rcases List.mem_append.1 hc with hc | hc
      · rw [List.eq_of_mem_replicate hc]
        rfl
      · exact hdigits.2 c hc
    · rw [List.length_append, Text.repeated, List.length_replicate]
      omega

/-! ### The number that a text counts as -/

/-- A text that begins and ends with a digit counts as what is read off it, and so it does after a
minus sign. -/
lemma toFloat_string {c : Char} (hc : c.isDigit = true)
    (hlast : ∀ d ∈ (c :: t).getLast?, d.isDigit = true) (b : Bool) :
    (Json.string (if b then '-' :: c :: t else c :: t)).toFloat =
      (unsigned? b (c :: t)).getD (0 / 0) := by
  obtain ⟨w, hw⟩ : ∃ w, w = if b then '-' :: c :: t else c :: t := ⟨_, rfl⟩
  have hhead : ∃ d w', w = d :: w' ∧ Text.isSpace d = false := by
    cases b with
    | true => exact ⟨'-', c :: t, hw, by decide⟩
    | false => exact ⟨c, t, hw, Text.isSpace_of_isDigit hc⟩
  have hend : ∀ d ∈ w.getLast?, Text.isSpace d = false := by
    intro d hd
    refine Text.isSpace_of_isDigit (hlast d ?_)
    cases b with
    | true => rwa [hw, if_pos rfl, List.getLast?_cons_cons] at hd
    | false => rwa [hw, if_neg Bool.false_ne_true] at hd
  obtain ⟨d, w', hcons, hd⟩ := hhead
  have hblank : Text.isBlank w = false := by
    rw [hcons, Text.isBlank, List.all_cons, hd]
    rfl
  have htrim : Text.trim w = w := Text.trim_eq_self (by simp [hcons, hd]) hend
  rw [← hw, Json.toFloat, hblank, if_neg Bool.false_ne_true, htrim, hw, read?_of_digit hc]

/-- A row of digits counts as the whole number it denotes. -/
lemma toFloat_digits (b : Bool) (ht : t.IsDigits) :
    (Json.string (if b then '-' :: t else t)).toFloat = ofDecimal b (Text.digitsValue t) 0 := by
  obtain ⟨c, w, rfl⟩ := List.exists_cons_of_ne_nil ht.1
  rw [toFloat_string (ht.2 c List.mem_cons_self) fun d hd => ht.2 d (List.mem_of_mem_getLast? hd),
    unsigned?_digits b ht, Option.getD_some]

/-- Digits on both sides of a point count as the decimal they denote. -/
lemma toFloat_point (b : Bool) (ht : t.IsDigits) (hu : u.IsDigits) :
    (Json.string (if b then '-' :: (t ++ '.' :: u) else t ++ '.' :: u)).toFloat =
      ofDecimal b (Text.digitsValue (t ++ u)) (-(u.length : ℤ)) := by
  have hread := unsigned?_point b ht hu
  obtain ⟨c, w, rfl⟩ := List.exists_cons_of_ne_nil ht.1
  have hlast : ∀ d ∈ (c :: (w ++ '.' :: u)).getLast?, d.isDigit = true := by
    intro d hd
    obtain ⟨a, u, rfl⟩ := List.exists_cons_of_ne_nil hu.1
    rw [← List.cons_append, List.getLast?_append_cons, List.getLast?_cons_cons] at hd
    exact hu.2 d (List.mem_of_mem_getLast? hd)
  rw [List.cons_append, toFloat_string (ht.2 c List.mem_cons_self) hlast, ← List.cons_append, hread,
    Option.getD_some]

end Double

end HtmlTemplate
