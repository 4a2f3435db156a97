import Mathlib.Data.List.Basic
import HtmlTemplate.Markup.Segment

/-!
Plain names: a lower case ASCII letter, then such letters, digits and hyphens. They are their own
lower case and hold no character that ends anything.
-/

namespace HtmlTemplate.Text

def isNameChar (c : Char) : Bool := c.isLower || c.isDigit || c == '-'

/-- A name of tags and attributes as templates mostly use them. -/
def isName : Text → Bool
  | [] => false
  | c :: t => c.isLower && t.all isNameChar

variable {c d : Char} {t : Text}

lemma bounds_of_isLower (h : c.isLower = true) : 97 ≤ c.toNat ∧ c.toNat ≤ 122 := by
  have hdef : c.isLower = (decide (c.val ≥ 'a'.val) && decide (c.val ≤ 'z'.val)) := rfl
  have hval : c.val ≥ 'a'.val ∧ c.val ≤ 'z'.val := by simpa [hdef] using h
  exact ⟨UInt32.le_iff_toNat_le.1 hval.1, UInt32.le_iff_toNat_le.1 hval.2⟩

lemma bounds_of_isNameChar (h : isNameChar c = true) :
    (97 ≤ c.toNat ∧ c.toNat ≤ 122) ∨ 45 ≤ c.toNat ∧ c.toNat ≤ 57 := by
  simp only [isNameChar, Bool.or_eq_true, beq_iff_eq] at h
  rcases h with (h | h) | rfl
  · exact .inl (bounds_of_isLower h)
  · have hdef : c.isDigit = (decide (c.val ≥ '0'.val) && decide (c.val ≤ '9'.val)) := rfl
    have hval : c.val ≥ '0'.val ∧ c.val ≤ '9'.val := by simpa [hdef] using h
    have h1 : 48 ≤ c.toNat := UInt32.le_iff_toNat_le.1 hval.1
    have h2 : c.toNat ≤ 57 := UInt32.le_iff_toNat_le.1 hval.2
    exact .inr ⟨by omega, h2⟩
  · exact .inr (by decide)

lemma isName_iff : isName t = true ↔
    ∃ c u, t = c :: u ∧ c.isLower = true ∧ ∀ d ∈ c :: u, isNameChar d = true := by
  cases t with
  | nil => simp [isName]
  | cons c u =>
    simp only [isName, Bool.and_eq_true, List.all_eq_true, List.cons.injEq, List.forall_mem_cons]
    constructor
    · rintro ⟨hc, hu⟩
      exact ⟨c, u, ⟨rfl, rfl⟩, hc, by simp [isNameChar, hc], hu⟩
    · rintro ⟨_, _, ⟨rfl, rfl⟩, hc, -, hu⟩
      exact ⟨hc, hu⟩

lemma isNameChar_of_mem (h : isName t = true) (hd : d ∈ t) : isNameChar d = true := by
  obtain ⟨c, u, rfl, -, hall⟩ := isName_iff.1 h
  exact hall d hd

lemma ne_of_isNameChar (h : isNameChar c = true) (hd : isNameChar d = false) : c ≠ d := by
  rintro rfl
  rw [h] at hd
  cases hd

/-- A character of another kind is in no name. -/
lemma not_mem_of_isName (h : isName t = true) (hd : isNameChar d = false) : d ∉ t :=
  fun hm => ne_of_isNameChar (isNameChar_of_mem h hm) hd rfl

lemma ne_nil_of_isName (h : isName t = true) : t ≠ [] := by
  rintro rfl
  cases h

lemma isSpace_of_isNameChar (h : isNameChar c = true) : isSpace c = false := by
  have hb := bounds_of_isNameChar h
  have hblank : c ≠ ' ' := ne_of_isNameChar h rfl
  simp only [isSpace, Bool.or_eq_false_iff, Bool.and_eq_false_imp, beq_eq_false_iff_ne,
    decide_eq_true_eq, decide_eq_false_iff_not]
  refine ⟨⟨⟨⟨⟨⟨⟨⟨⟨⟨hblank, ?_⟩, ?_⟩, ?_⟩, ?_⟩, ?_⟩, ?_⟩, ?_⟩, ?_⟩, ?_⟩, ?_⟩ <;> omega

lemma toLower_of_isNameChar (h : isNameChar c = true) : c.toLower = c := by
  have hb := bounds_of_isNameChar h
  unfold Char.toLower
  split
  · next hc =>
    have h1 : 65 ≤ c.toNat := UInt32.le_iff_toNat_le.1 hc.1
    have h2 : c.toNat ≤ 90 := UInt32.le_iff_toNat_le.1 hc.2
    omega
  · rfl

lemma map_toLower_of_isName (h : isName t = true) : t.map Char.toLower = t := by
  conv_rhs => rw [← List.map_id t]
  exact List.map_congr_left fun c hc => toLower_of_isNameChar (isNameChar_of_mem h hc)

/-- Characters that are their own lower case, wherever they stand. -/
lemma lowerFrom_append {w : Text} (h : ∀ c ∈ w, c.toNat ≠ 0x3A3 ∧ lowerChar c = [c])
    (passed t : Text) : lowerFrom passed (w ++ t) = w ++ lowerFrom (w.reverse ++ passed) t := by
  induction w generalizing passed with
  | nil => rfl
  | cons c w ih =>
    obtain ⟨⟨hsigma, hc⟩, hw⟩ := List.forall_mem_cons.1 h
    rw [List.cons_append, lowerFrom, if_neg hsigma, hc, ih hw]
    simp

lemma lowerChar_of_isNameChar (h : isNameChar c = true) :
    c.toNat ≠ 0x3A3 ∧ lowerChar c = [c] := by
  have hb := bounds_of_isNameChar h
  rw [lowerChar, if_pos (by omega), toLower_of_isNameChar h]
  exact ⟨by omega, rfl⟩

lemma lower_of_isName (h : isName t = true) : t.lower = t := by
  have hlower :=
    lowerFrom_append (fun _ hc => lowerChar_of_isNameChar (isNameChar_of_mem h hc)) [] []
  simpa [lower, lowerFrom] using hlower

end HtmlTemplate.Text
