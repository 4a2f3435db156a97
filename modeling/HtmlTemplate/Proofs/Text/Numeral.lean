import Mathlib.Tactic.IntervalCases
import HtmlTemplate.Text.Numeral

/-!
Numerals hold digits only, and the number can be read back off them.
-/

namespace HtmlTemplate.Text

lemma isDigit_digit {n : Nat} (h : n < 10) : (digit n).isDigit = true := by
  interval_cases n <;> decide

lemma toNat_digit {n : Nat} (h : n < 10) : (digit n).toNat - 48 = n := by
  interval_cases n <;> decide

lemma isDigit_of_mem_numeral {n : Nat} {c : Char} (h : c ∈ numeral n) : c.isDigit = true := by
  induction n using numeral.induct with
  | case1 n hn =>
    rw [numeral, if_pos hn, List.mem_singleton] at h
    rw [h]
    exact isDigit_digit hn
  | case2 n hn ih =>
    rw [numeral, if_neg hn, List.mem_append, List.mem_singleton] at h
    rcases h with h | rfl
    · exact ih h
    · exact isDigit_digit (Nat.mod_lt n (by omega))

/-- A numeral denotes its number. -/
lemma digitsValue_numeral (n : Nat) : digitsValue (numeral n) = n := by
  induction n using numeral.induct with
  | case1 n hn =>
    rw [numeral, if_pos hn]
    simp [digitsValue, toNat_digit hn]
  | case2 n hn ih =>
    rw [numeral, if_neg hn]
    have hd := toNat_digit (Nat.mod_lt n (show 10 > 0 by omega))
    simp only [digitsValue, List.foldl_append, List.foldl_cons, List.foldl_nil] at ih ⊢
    rw [ih, hd]
    omega

lemma numeral_ne_nil (n : Nat) : numeral n ≠ [] := by
  rw [numeral]
  split <;> simp

lemma lt_ten_pow_length (n : Nat) : n < 10 ^ (numeral n).length := by
  induction n using numeral.induct with
  | case1 n hn =>
    rw [numeral, if_pos hn]
    simpa using hn
  | case2 n hn ih =>
    rw [numeral, if_neg hn, List.length_append, List.length_singleton, Nat.pow_succ]
    omega

/-- A numeral has no leading zeros. -/
lemma ten_pow_le {n : Nat} (h : n ≠ 0) : 10 ^ ((numeral n).length - 1) ≤ n := by
  induction n using numeral.induct with
  | case1 n hn =>
    rw [numeral, if_pos hn]
    exact Nat.one_le_iff_ne_zero.2 h
  | case2 n hn ih =>
    have hlen : (numeral (n / 10)).length ≠ 0 :=
      fun h => numeral_ne_nil _ (List.length_eq_zero_iff.1 h)
    have hpow : (10 : Nat) ^ (numeral (n / 10)).length =
        10 ^ ((numeral (n / 10)).length - 1) * 10 := by
      rw [← Nat.pow_succ, Nat.succ_eq_add_one, Nat.sub_add_cancel (Nat.pos_of_ne_zero hlen)]
    have hle := ih (by omega)
    rw [numeral, if_neg hn, List.length_append, List.length_singleton, Nat.add_sub_cancel, hpow]
    omega

/-- An integer is told by its numeral. -/
lemma signedNumeral_injective {m n : Int} (h : signedNumeral m = signedNumeral n) : m = n := by
  have hminus : ∀ a b : Nat, '-' :: numeral a ≠ numeral b := fun a b heq =>
    absurd (isDigit_of_mem_numeral (heq ▸ List.mem_cons_self)) (by decide)
  have hvalue : ∀ {a b : Nat}, numeral a = numeral b → a = b := fun {a b} heq => by
    rw [← digitsValue_numeral a, heq, digitsValue_numeral]
  rw [signedNumeral, signedNumeral] at h
  split at h <;> split at h
  · have := hvalue (List.cons.inj h).2
    omega
  · exact absurd h (hminus _ _)
  · exact absurd h.symm (hminus _ _)
  · have := hvalue h
    omega

end HtmlTemplate.Text
