import HtmlTemplate.Expr.Eval
import HtmlTemplate.Proofs.Record

/-!
How deep values lie inside each other.

A value lies deeper than each of its parts, and no link from it leads to one that lies deeper than
it does.
-/

namespace HtmlTemplate

namespace Json

mutual

/-- The greatest number of arrays and objects inside each other. -/
def height : Json → Nat
  | array items => heightItems items + 1
  | object members => heightMembers members + 1
  | _ => 0

def heightItems : List Json → Nat
  | [] => 0
  | v :: vs => max (height v) (heightItems vs)

def heightMembers : List (Text × Json) → Nat
  | [] => 0
  | (_, v) :: ms => max (height v) (heightMembers ms)

end

variable {v w : Json} {items : List Json} {members : List (Text × Json)} {name key : Text}

lemma height_array : height (array items) = heightItems items + 1 := by rw [height]

lemma height_object : height (object members) = heightMembers members + 1 := by rw [height]

lemma height_ofFloat_le (x : Float) (k : Nat) : (ofFloat x).height ≤ k := by
  unfold ofFloat
  split
  · exact Nat.zero_le k
  · split <;> exact Nat.zero_le k

lemma height_lt_array (h : v ∈ items) : v.height < (array items).height := by
  have hle : v.height ≤ heightItems items := by
    induction items with
    | nil => cases h
    | cons u items ih =>
      rw [heightItems]
      rcases List.mem_cons.1 h with rfl | h
      · exact Nat.le_max_left _ _
      · exact Nat.le_trans (ih h) (Nat.le_max_right _ _)
  rw [height_array]
  exact Nat.lt_succ_of_le hle

lemma height_lt_object (h : (name, v) ∈ members) : v.height < (object members).height := by
  have hle : v.height ≤ heightMembers members := by
    induction members with
    | nil => cases h
    | cons m members ih =>
      rw [heightMembers]
      rcases List.mem_cons.1 h with rfl | h
      · exact Nat.le_max_left _ _
      · exact Nat.le_trans (ih h) (Nat.le_max_right _ _)
  rw [height_object]
  exact Nat.lt_succ_of_le hle

lemma height_lt_object_of_get? (h : Record.get? members name = some v) :
    v.height < (object members).height :=
  height_lt_object (Record.mem_of_get? h)

/-- A value that may be missing, and is `null` then. -/
lemma height_getD_le {found : Option Json} {k : Nat} (h : ∀ v ∈ found, v.height ≤ k) :
    (found.getD null).height ≤ k := by
  cases found with
  | none => exact Nat.zero_le k
  | some v => exact h v rfl

/-- A link leads no deeper. -/
lemma height_property_le (h : v.property key = .ok w) : w.height ≤ v.height := by
  cases v with
  | null => cases h
  | bool b | number n =>
    cases h
    exact Nat.zero_le _
  | string s =>
    rw [property] at h
    split at h
    · cases h
      exact Nat.zero_le _
    · cases h
      refine height_getD_le fun v hv => ?_
      obtain ⟨c, -, rfl⟩ := Option.map_eq_some_iff.1 hv
      exact Nat.zero_le _
  | array items =>
    rw [property] at h
    split at h
    · cases h
      exact Nat.zero_le _
    · cases h
      refine height_getD_le fun v hv => ?_
      obtain ⟨i, -, hi⟩ := Option.bind_eq_some_iff.1 hv
      exact Nat.le_of_lt (height_lt_array (List.mem_of_getElem? hi))
  | object members =>
    cases h
    exact height_getD_le fun v hv => Nat.le_of_lt (height_lt_object_of_get? hv)

end Json

end HtmlTemplate
