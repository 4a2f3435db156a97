import HtmlTemplate.Proofs.Json.Height

/-!
Expressions for parts of values.

Links, conditions and the operators that pick an operand lead from known values to parts of them.
The value of an expression made of these lies no deeper than the known ones do.
-/

namespace HtmlTemplate

namespace BinaryOp

/-- Whether the value is that of an operand. -/
def picks : BinaryOp → Bool
  | and | or | coalesce => true
  | _ => false

lemma settledBy_eq_false {op : BinaryOp} (h : op.picks = false) (left : Json) :
    op.settledBy left = false := by
  cases op <;> first | rfl | cases h

lemma height_apply_le {op : BinaryOp} (h : op.picks = false) (a b : Json) (k : Nat) :
    (op.apply a b).height ≤ k := by
  cases op with
  | and | or | coalesce => cases h
  | add =>
    rw [apply]
    split
    · exact Nat.zero_le k
    · exact Json.height_ofFloat_le _ k
  | sub | mul | div | mod => exact Json.height_ofFloat_le _ k
  | _ => exact Nat.zero_le k

lemma apply_eq {op : BinaryOp} (h : op.picks = true) (a b : Json) : op.apply a b = b := by
  cases op <;> first | rfl | cases h

end BinaryOp

namespace Expr

/-- Whether the value of an expression has no parts, or is a part of the value of a variable that
is known. -/
def isPart (known : Text → Bool) : Expr → Bool
  | number .. | string .. | boolean .. | null .. | undefined .. | unary .. => true
  | identifier _ name => known name
  | binary _ op a b => !op.picks || (isPart known a && isPart known b)
  | field _ o _ _ _ => isPart known o
  | index _ o _ _ => isPart known o
  | ternary _ _ a b => isPart known a && isPart known b
  | array .. | object .. => false

variable {c : Context} {known : Text → Bool} {k : Nat}

lemma exists_of_bind_ok {α β : Type} {x : Except EvalError α} {f : α → Except EvalError β} {b : β}
    (h : x >>= f = .ok b) : ∃ a, x = .ok a ∧ f a = .ok b := by
  cases x with
  | error e => cases h
  | ok a => exact ⟨a, rfl, h⟩

/-- A link leads no deeper. -/
lemma height_linked_le {v : Json} {key : Text} {r : Option Json}
    (h : (do return some (← v.property key)) = Except.ok r) (hv : v.height ≤ k) :
    (settle r).height ≤ k := by
  obtain ⟨w, hw, hr⟩ := exists_of_bind_ok h
  cases hr
  exact Nat.le_trans (Json.height_property_le hw) hv

/-- Nor does one that may be left out. -/
lemma height_link_le {found : Option Json} {optional : Bool}
    {follow : Json → Except EvalError (Option Json)} {r : Option Json}
    (h : (match found with
      | none => return none
      | some v => if optional && v.isNull then return none else follow v) = Except.ok r)
    (hfound : (settle found).height ≤ k)
    (hfollow : ∀ v w, v.height ≤ k → follow v = .ok w → (settle w).height ≤ k) :
    (settle r).height ≤ k := by
  cases found with
  | none =>
    cases h
    exact Nat.zero_le k
  | some v =>
    dsimp only at h
    split at h
    · cases h
      exact Nat.zero_le k
    · exact hfollow v r hfound h

/-- **Parts lie no deeper.** If no known variable has a value deeper than `k`, neither has an
expression for a part of one. -/
lemma height_reach_le (hc : ∀ x v, known x = true → c.get? x = some v → v.height ≤ k) :
    ∀ (e : Expr) (r : Option Json), e.isPart known = true → reach c e = .ok r →
      (settle r).height ≤ k
  | number _ x, r, _, h => by
    cases h
    exact Json.height_ofFloat_le x k
  | string _ _, r, _, h | boolean _ _, r, _, h | null _, r, _, h | undefined _, r, _, h => by
    cases h
    exact Nat.zero_le k
  | identifier _ name, r, he, h => by
    rw [reach] at h
    split at h
    · rename_i v hv
      cases h
      exact hc name v he hv
    · cases h
  | unary _ op a, r, _, h => by
    rw [reach] at h
    obtain ⟨v, -, hr⟩ := exists_of_bind_ok h
    cases hr
    cases op with
    | not => exact Nat.zero_le k
    | neg => exact Json.height_ofFloat_le _ k
  | binary _ op a b, r, he, h => by
    rw [reach] at h
    obtain ⟨v, hv, hr⟩ := exists_of_bind_ok h
    cases hop : op.picks with
    | false =>
      rw [BinaryOp.settledBy_eq_false hop, if_neg Bool.false_ne_true] at hr
      obtain ⟨w, -, hr⟩ := exists_of_bind_ok hr
      cases hr
      exact BinaryOp.height_apply_le hop _ _ k
    | true =>
      simp only [isPart, hop, Bool.not_true, Bool.false_or, Bool.and_eq_true] at he
      split at hr
      · cases hr
        exact height_reach_le hc a v he.1 hv
      · obtain ⟨w, hw, hr⟩ := exists_of_bind_ok hr
        cases hr
        rw [BinaryOp.apply_eq hop]
        exact height_reach_le hc b w he.2 hw
  | field _ o optional _ name, r, he, h => by
    rw [reach] at h
    obtain ⟨found, hfound, hr⟩ := exists_of_bind_ok h
    have hle := height_reach_le hc o found he hfound
    exact height_link_le hr hle fun v w hv hw => height_linked_le hw hv
  | index _ o optional key, r, he, h => by
    rw [reach] at h
    obtain ⟨found, hfound, hr⟩ := exists_of_bind_ok h
    have hle := height_reach_le hc o found he hfound
    refine height_link_le hr hle fun v w hv hw => ?_
    obtain ⟨i, -, hw⟩ := exists_of_bind_ok hw
    exact height_linked_le hw hv
  | ternary _ condition a b, r, he, h => by
    rw [reach] at h
    rw [isPart, Bool.and_eq_true] at he
    obtain ⟨v, -, hr⟩ := exists_of_bind_ok h
    split at hr
    · obtain ⟨w, hw, hr⟩ := exists_of_bind_ok hr
      cases hr
      exact height_reach_le hc a w he.1 hw
    · obtain ⟨w, hw, hr⟩ := exists_of_bind_ok hr
      cases hr
      exact height_reach_le hc b w he.2 hw
  | array _ _, r, he, _ | object _ _, r, he, _ => by cases he

end Expr

end HtmlTemplate
