import Mathlib.Data.List.DropRight
import Mathlib.Tactic.Lemma
import HtmlTemplate.Proofs.Text.Ends

/-!
Texts without the white space around them.
-/

namespace HtmlTemplate.Text

variable {t u w : Text} {c : Char} {q : Char → Bool}

lemma isBlank_iff : isBlank t = true ↔ ∀ c ∈ t, isSpace c = true := List.all_eq_true

lemma dropEndWhile_eq_rdropWhile (q : Char → Bool) (t : Text) :
    dropEndWhile q t = t.rdropWhile q := rfl

lemma dropEndWhile_prefix (q : Char → Bool) (t : Text) : dropEndWhile q t <+: t :=
  List.rdropWhile_prefix q t

lemma dropEndWhile_eq_nil_iff : dropEndWhile q t = [] ↔ ∀ c ∈ t, q c = true :=
  List.rdropWhile_eq_nil_iff

/-- From a text that ends with a character to stop at nothing is taken off. -/
lemma dropEndWhile_append (ht : ∀ c ∈ t.getLast?, q c = false) (w : Text) :
    dropEndWhile q (t ++ w) = t ++ dropEndWhile q w := by
  induction w using List.reverseRecOn with
  | nil =>
    rw [List.append_nil, dropEndWhile_eq_rdropWhile, List.rdropWhile_eq_self_iff.2]
    · simp [dropEndWhile]
    · intro hne
      simpa using ht _ (List.getLast?_eq_some_getLast hne)
  | append_singleton w c ih =>
    rw [← List.append_assoc]
    cases hc : q c with
    | true => rw [dropEndWhile_append_pos _ hc, dropEndWhile_append_pos _ hc, ih]
    | false => rw [dropEndWhile_append_neg _ hc, dropEndWhile_append_neg _ hc, List.append_assoc]

/-- A word at the front stays. -/
lemma trim_append (hne : w ≠ []) (hw : ∀ c ∈ w, isSpace c = false) (t : Text) :
    trim (w ++ t) = w ++ dropEndWhile isSpace t := by
  have hstart : trimStart (w ++ t) = w ++ t := by
    cases w with
    | nil => exact absurd rfl hne
    | cons c w => exact trimStart_cons (hw c List.mem_cons_self) _
  rw [trim, hstart, dropEndWhile_append fun c hc => hw c (List.mem_of_mem_getLast? hc)]

lemma trim_eq_self (hhead : ∀ c ∈ t.head?, isSpace c = false)
    (hlast : ∀ c ∈ t.getLast?, isSpace c = false) : trim t = t := by
  have hstart : trimStart t = t := by
    cases t with
    | nil => rfl
    | cons c t => exact trimStart_cons (hhead c rfl) t
  have hend := dropEndWhile_append hlast []
  rw [List.append_nil] at hend
  rw [trim, hstart, hend]
  exact List.append_nil t

lemma trimStart_eq_nil_iff : trimStart t = [] ↔ isBlank t = true := by
  rw [isBlank_iff]
  exact List.dropWhile_eq_nil_iff

lemma trim_eq_nil_iff : trim t = [] ↔ isBlank t = true := by
  rw [trim, dropEndWhile_eq_nil_iff, ← isBlank_iff, ← trimStart_eq_nil_iff, ← trimStart_eq_nil_iff]
  exact iff_of_eq (congrArg (· = []) (List.dropWhile_idempotent isSpace t))

/-- What stands between others is not taken off. -/
lemma mem_trim (hu : isBlank u = false) (hne : t ≠ []) (ht : ∀ d ∈ t.getLast?, isSpace d = false)
    (c : Char) : c ∈ trim (u ++ c :: t) := by
  have hstart : trimStart (u ++ c :: t) = trimStart u ++ c :: t := by
    rw [trimStart, List.dropWhile_append, ← trimStart, if_neg]
    rw [List.isEmpty_iff, trimStart_eq_nil_iff, hu]
    exact Bool.false_ne_true
  have hend : ∀ d ∈ (trimStart u ++ c :: t).getLast?, isSpace d = false := by
    obtain ⟨d, t, rfl⟩ := List.exists_cons_of_ne_nil hne
    rw [List.getLast?_append_cons, List.getLast?_cons_cons]
    exact ht
  have hall := dropEndWhile_append hend []
  rw [List.append_nil] at hall
  rw [trim, hstart, hall]
  simp

end HtmlTemplate.Text
