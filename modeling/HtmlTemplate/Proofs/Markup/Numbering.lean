import Mathlib.Data.List.Nodup
import HtmlTemplate.Proofs.Markup.Forest

/-!
The numbers in the table of a forest.

The rows of trees are numbered in document order, and every number is written into one list: the
roots, or the children of one row. So the table agrees with itself wherever it is read, and going
through it depth first from the roots counts from zero to the last row.
-/

namespace HtmlTemplate

open Node

namespace NodeTable

/-- What holds of a table whose rows agree with each other. -/
structure WellFormed (t : NodeTable) : Prop where
  /-- every number is in exactly one place of the lists of roots and children -/
  once : (t.roots ++ t.rows.flatMap Row.children).Perm (List.range t.rows.length)
  /-- a row tells where its number is -/
  placed : ∀ {id r}, t.row? id = some r → (t.siblings r)[r.index]? = some id
  /-- and a number found in a list is that of a row that tells so -/
  listed : ∀ {parent k id}, (t.under parent)[k]? = some id →
    ∃ r, t.row? id = some r ∧ r.parent = parent ∧ r.index = k
  /-- children come after their parents -/
  later : ∀ {id r p}, t.row? id = some r → r.parent = some p → p < id
  /-- only elements that do not close themselves have children -/
  inner : ∀ {id r}, t.row? id = some r → r.children ≠ [] →
    r.node.isElement = true ∧ r.node.selfClosing = false

/-- The table has these rows from number `start` on. -/
def HasAt (t : NodeTable) (start : Nat) (rows : List Row) : Prop :=
  ∀ k r, rows[k]? = some r → t.row? (start + k) = some r

variable {t : NodeTable} {parent : Option Nat} {start index : Nat} {ns : List Node}

namespace HasAt

variable {r : Row} {rows rows' : List Row}

lemma head (h : t.HasAt start (r :: rows)) : t.row? start = some r := h 0 r rfl

lemma tail (h : t.HasAt start (r :: rows)) : t.HasAt (start + 1) rows := by
  intro k s hk
  rw [Nat.add_assoc, Nat.add_comm 1]
  exact h (k + 1) s hk

lemma left (h : t.HasAt start (rows ++ rows')) : t.HasAt start rows := by
  intro k s hk
  have hlt : k < rows.length := (List.getElem?_eq_some_iff.1 hk).1
  exact h k s (by rw [List.getElem?_append_left hlt, hk])

lemma right (h : t.HasAt start (rows ++ rows')) : t.HasAt (start + rows.length) rows' := by
  intro k s hk
  rw [Nat.add_assoc]
  refine h _ s ?_
  rw [List.getElem?_append_right (by omega), Nat.add_sub_cancel_left, hk]

end HasAt

lemma childrenOf_eq {id : Nat} {r : Row} (h : t.row? id = some r) :
    t.childrenOf id = r.children := by
  rw [childrenOf, h]

lemma childrenOf_eq_nil {id : Nat} (h : t.row? id = none) : t.childrenOf id = [] := by
  rw [childrenOf, h]

lemma lt_of_row? {id : Nat} {r : Row} (h : t.row? id = some r) : id < t.rows.length :=
  (List.getElem?_eq_some_iff.1 h).1

/-- The numbers of trees, with all children of their nodes, are those of their rows. -/
lemma perm_numbers (parent : Option Nat) (start index : Nat) (ns : List Node) :
    (numbers start ns ++ (forestRows parent start index ns).flatMap Row.children).Perm
      (List.range' start (count ns)) := by
  induction ns using forest_induction generalizing parent start index with
  | nil => simp
  | leaf kind raw line ns ih =>
    simpa [List.range'_succ] using (ih parent (start + 1) (index + 1)).cons start
  | element head closed children ns ihc ihn =>
    have hc := ihc (some start) (start + 1) 0
    have hn := ihn parent (start + 1 + count children) (index + 1)
    rw [numbers_element, forestRows_element, count_element, List.range'_succ,
      ← List.range'_append_1, List.flatMap_cons, List.flatMap_append, List.cons_append]
    refine List.Perm.cons start (List.Perm.trans ?_ (hc.append hn))
    -- the numbers behind the element move behind all that is below it
    rw [← List.append_assoc, ← List.append_assoc, ← List.append_assoc]
    refine List.Perm.append_right _ ?_
    rw [List.append_assoc]
    exact List.perm_append_comm

/-- A number of trees in the table is that of a row at the same position. -/
lemma row_of_numbers (h : t.HasAt start (forestRows parent start index ns)) {k id : Nat}
    (hk : (numbers start ns)[k]? = some id) :
    start ≤ id ∧ ∃ r, t.row? id = some r ∧ r.parent = parent ∧ r.index = index + k := by
  induction ns using forest_induction generalizing start index k with
  | nil => simp at hk
  | leaf kind raw line ns ih =>
    rw [numbers_leaf] at hk
    rw [forestRows_leaf] at h
    cases k with
    | zero =>
      obtain rfl : start = id := by simpa using hk
      exact ⟨Nat.le_refl start, _, h.head, rfl, rfl⟩
    | succ k =>
      obtain ⟨hle, r, hr, hp, hi⟩ := ih h.tail hk
      exact ⟨by omega, r, hr, hp, by omega⟩
  | element head closed children ns _ ih =>
    rw [numbers_element] at hk
    rw [forestRows_element] at h
    cases k with
    | zero =>
      obtain rfl : start = id := by simpa using hk
      exact ⟨Nat.le_refl start, _, h.head, rfl, rfl⟩
    | succ k =>
      have hn := h.tail.right
      rw [length_forestRows] at hn
      obtain ⟨hle, r, hr, hp, hi⟩ := ih hn hk
      exact ⟨by omega, r, hr, hp, by omega⟩

/-- Behind the row of a node are those of the trees below it. -/
lemma subtree (h : t.HasAt start (forestRows parent start index ns)) {k : Nat}
    (hk : k < count ns) : ∃ r children, t.row? (start + k) = some r ∧
      r.children = numbers (start + k + 1) children ∧
      t.HasAt (start + k + 1) (forestRows (some (start + k)) (start + k + 1) 0 children) := by
  induction ns using forest_induction generalizing parent start index k with
  | nil => simp at hk
  | leaf kind raw line ns ih =>
    rw [forestRows_leaf] at h
    rw [count_leaf] at hk
    cases k with
    | zero => exact ⟨_, [], h.head, rfl, by simp [HasAt]⟩
    | succ k =>
      have := ih h.tail (k := k) (by omega)
      rwa [show start + 1 + k = start + (k + 1) by omega] at this
  | element head closed children ns ihc ihn =>
    rw [forestRows_element] at h
    rw [count_element] at hk
    have hn := h.tail.right
    rw [length_forestRows] at hn
    rcases Nat.lt_or_ge k (count children + 1) with hlt | hge
    · cases k with
      | zero => exact ⟨_, children, h.head, rfl, h.tail.left⟩
      | succ k =>
        have := ihc h.tail.left (k := k) (by omega)
        rwa [show start + 1 + k = start + (k + 1) by omega] at this
    · have := ihn hn (k := k - (count children + 1)) (by omega)
      rwa [show start + 1 + count children + (k - (count children + 1)) = start + k by omega]
        at this

/-- Going through trees depth first meets their numbers in order, and goes on with the rest. -/
lemma visit_numbers (h : t.HasAt start (forestRows parent start index ns)) (steps : Nat)
    (ids : List Nat) : t.visit (count ns + steps) (numbers start ns ++ ids) =
      List.range' start (count ns) ++ t.visit steps ids := by
  induction ns using forest_induction generalizing parent start index steps ids with
  | nil => simp
  | leaf kind raw line ns ih =>
    rw [forestRows_leaf] at h
    have hrow : t.childrenOf start = [] := childrenOf_eq h.head
    rw [numbers_leaf, count_leaf, Nat.add_right_comm, List.cons_append, visit, hrow,
      List.nil_append, ih h.tail, List.range'_succ, List.cons_append]
  | element head closed children ns ihc ihn =>
    rw [forestRows_element] at h
    have hrow : t.childrenOf start = numbers (start + 1) children := childrenOf_eq h.head
    have hn := h.tail.right
    rw [length_forestRows] at hn
    rw [numbers_element, count_element, Nat.add_right_comm, List.cons_append, visit, hrow,
      Nat.add_assoc, ihc h.tail.left, ihn hn, List.range'_succ, ← List.range'_append_1,
      List.cons_append, List.append_assoc]

/-- A row with children is that of an element with trees below it. -/
lemma inner_of_mem_forestRows (hns : SelfClosingEmpty ns) {r : Row}
    (hr : r ∈ forestRows parent start index ns) (hc : r.children ≠ []) :
    r.node.isElement = true ∧ r.node.selfClosing = false := by
  induction ns using forest_induction generalizing parent start index with
  | nil => simp at hr
  | leaf kind raw line ns ih =>
    rw [forestRows_leaf, List.mem_cons] at hr
    rw [SelfClosingEmpty.leaf_iff] at hns
    rcases hr with rfl | hr
    · exact absurd rfl hc
    · exact ih hns hr
  | element head closed children ns ihc ihn =>
    rw [forestRows_element, List.mem_cons, List.mem_append] at hr
    obtain ⟨hhead, hchildren, hns⟩ := SelfClosingEmpty.element_iff.1 hns
    rcases hr with rfl | hr | hr
    · refine ⟨rfl, hhead ?_⟩
      rintro rfl
      exact hc rfl
    · exact ihc hchildren hr
    · exact ihn hns hr

variable (ns)

@[simp] lemma length_rows_ofForest : (ofForest ns).rows.length = count ns := length_forestRows

lemma hasAt_ofForest : (ofForest ns).HasAt 0 (forestRows none 0 0 ns) := by
  intro k r hk
  rw [Nat.zero_add]
  exact hk

/-- Every number in a list of a forest's table is that of a row behind the parent's. -/
lemma listed_ofForest {parent : Option Nat} {k id : Nat}
    (hk : ((ofForest ns).under parent)[k]? = some id) :
    (∀ p, parent = some p → p < id) ∧
      ∃ r, (ofForest ns).row? id = some r ∧ r.parent = parent ∧ r.index = k := by
  cases parent with
  | none =>
    obtain ⟨-, r, hr, hp, hi⟩ := row_of_numbers (hasAt_ofForest ns) hk
    exact ⟨by simp, r, hr, hp, by omega⟩
  | some p =>
    rw [under] at hk
    have hlt : p < count ns := by
      by_contra hge
      have hnone : (ofForest ns).row? p = none :=
        List.getElem?_eq_none (by rw [length_rows_ofForest]; omega)
      rw [childrenOf_eq_nil hnone] at hk
      cases hk
    obtain ⟨r, children, hr, hc, hat⟩ := subtree (hasAt_ofForest ns) hlt
    rw [Nat.zero_add] at hr hc hat
    rw [childrenOf_eq hr, hc] at hk
    obtain ⟨hle, s, hs, hp, hi⟩ := row_of_numbers hat hk
    refine ⟨fun q hq => ?_, s, hs, hp, by omega⟩
    obtain rfl := Option.some.inj hq
    exact hle

lemma once_ofForest : ((ofForest ns).roots ++ (ofForest ns).rows.flatMap Row.children).Perm
    (List.range (ofForest ns).rows.length) := by
  rw [length_rows_ofForest, List.range_eq_range']
  exact perm_numbers none 0 0 ns

/-- Every number is somewhere in the lists of a forest's table. -/
lemma exists_under_ofForest {id : Nat} (h : id < (ofForest ns).rows.length) :
    ∃ (parent : Option Nat) (k : Nat), ((ofForest ns).under parent)[k]? = some id := by
  have hmem := (once_ofForest ns).mem_iff.2 (List.mem_range.2 h)
  rw [List.mem_append, List.mem_flatMap] at hmem
  rcases hmem with hmem | ⟨r, hr, hmem⟩
  · obtain ⟨k, hk⟩ := List.mem_iff_getElem?.1 hmem
    exact ⟨none, k, hk⟩
  · obtain ⟨p, hp⟩ := List.mem_iff_getElem?.1 hr
    obtain ⟨k, hk⟩ := List.mem_iff_getElem?.1 hmem
    exact ⟨some p, k, by rw [under, childrenOf_eq hp, hk]⟩

lemma placed_ofForest {id : Nat} {r : Row} (hr : (ofForest ns).row? id = some r) :
    ((ofForest ns).siblings r)[r.index]? = some id := by
  obtain ⟨parent, k, hk⟩ := exists_under_ofForest ns (lt_of_row? hr)
  obtain ⟨-, s, hs, rfl, rfl⟩ := listed_ofForest ns hk
  obtain rfl : r = s := Option.some.inj (hr.symm.trans hs)
  exact hk

/-- **The table of a forest agrees with itself.** -/
theorem wellFormed_ofForest (hns : SelfClosingEmpty ns) : (ofForest ns).WellFormed where
  once := once_ofForest ns
  placed := placed_ofForest ns
  listed := fun hk => (listed_ofForest ns hk).2
  later := by
    intro id r p hr hp
    have hk := placed_ofForest ns hr
    rw [siblings, hp] at hk
    exact (listed_ofForest ns hk).1 p rfl
  inner := fun hr => inner_of_mem_forestRows hns (List.mem_of_getElem? hr)

/-- **Depth first is document order.** However many steps are allowed beyond one for each row,
going through the table from the roots counts up to the last row. -/
theorem visit_ofForest {steps : Nat} (h : (ofForest ns).rows.length ≤ steps) :
    (ofForest ns).visit steps (ofForest ns).roots = List.range (ofForest ns).rows.length := by
  have hvisit := visit_numbers (hasAt_ofForest ns) (steps - count ns) []
  rw [length_rows_ofForest] at h ⊢
  rw [List.append_nil, Nat.add_sub_cancel' h] at hvisit
  have hnil : (ofForest ns).visit (steps - count ns) [] = [] := by
    cases steps - count ns <;> rfl
  rw [show (ofForest ns).roots = numbers 0 ns from rfl, hvisit, hnil, List.append_nil,
    List.range_eq_range']

end NodeTable

end HtmlTemplate
