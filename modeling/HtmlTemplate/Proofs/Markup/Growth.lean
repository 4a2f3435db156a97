import HtmlTemplate.Markup.Arena
import HtmlTemplate.Proofs.Markup.Navigation

/-!
The table that grows in place is the table of the builder's trees.

The open elements are the path from the last root down to the place where the next node goes, so
the next number is behind all numbers there are, and only the lists at the end of that path are
written to. One segment does the same to both, hence so does any run of segments.
-/

namespace HtmlTemplate

open Node

/-- The number that the first node inside the innermost open element has. -/
def firstInside : List OpenElement → Nat
  | [] => 0
  | o :: stack => firstInside stack + count o.before.reverse + 1

/-- The number of an element that is opened inside others, behind its elder siblings. -/
def OpenElement.id (o : OpenElement) (stack : List OpenElement) : Nat :=
  firstInside stack + count o.before.reverse

/-- The numbers of open elements. -/
def openIds : List OpenElement → List Nat
  | [] => []
  | o :: stack => o.id stack :: openIds stack

namespace NodeTable

/-- A table with more rows. -/
def extend (t : NodeTable) (rows : List Row) : NodeTable := { t with rows := t.rows ++ rows }

/-- The table of what stands before and around the siblings inside the innermost open element.
`inner` are the numbers of these. -/
def around : (stack : List OpenElement) → (inner : List Nat) → NodeTable
  | [], inner => ⟨[], inner⟩
  | o :: stack, inner =>
    let parent := (openIds stack).head?
    let start := firstInside stack
    ((around stack (numbers start o.before.reverse ++ [o.id stack])).extend
      (forestRows parent start 0 o.before.reverse)).extend
        [⟨.element o.head false [], parent, o.before.length, inner⟩]

/-- The table of what stands before an open element. -/
def ahead (o : OpenElement) (stack : List OpenElement) : NodeTable :=
  (around stack (numbers (firstInside stack) o.before.reverse ++ [o.id stack])).extend
    (forestRows (openIds stack).head? (firstInside stack) 0 o.before.reverse)

/-- The row of an element, open or closed; `inner` are the numbers of its children. -/
def elementRow (o : OpenElement) (stack : List OpenElement) (closed : Bool) (inner : List Nat) :
    Row :=
  ⟨.element o.head closed [], (openIds stack).head?, o.before.length, inner⟩

/-- The table of a tree under construction. -/
def ofStack (siblings : List Node) (stack : List OpenElement) : NodeTable :=
  (around stack (numbers (firstInside stack) siblings.reverse)).extend
    (forestRows (openIds stack).head? (firstInside stack) 0 siblings.reverse)

variable {t : NodeTable} {o : OpenElement} {stack : List OpenElement} {inner : List Nat}
  {siblings : List Node}

lemma extend_extend (t : NodeTable) (rows rows' : List Row) :
    (t.extend rows).extend rows' = t.extend (rows ++ rows') := by
  simp only [extend, List.append_assoc]

lemma length_extend (t : NodeTable) (rows : List Row) :
    (t.extend rows).rows.length = t.rows.length + rows.length := List.length_append

lemma around_cons :
    around (o :: stack) inner = (ahead o stack).extend [elementRow o stack false inner] := rfl

/-- All rows before the place where the next node goes have smaller numbers. -/
lemma length_around : (around stack inner).rows.length = firstInside stack := by
  induction stack generalizing inner with
  | nil => rfl
  | cons o stack ih =>
    rw [around_cons, length_extend, ahead, length_extend, ih, length_forestRows]
    rfl

lemma length_ahead : (ahead o stack).rows.length = o.id stack := by
  rw [ahead, length_extend, length_around, length_forestRows]
  rfl

/-- An element stands behind its elder siblings and before the trees below it. -/
lemma ofStack_element (closed : Bool) :
    ofStack (.element o.head closed siblings.reverse :: o.before) stack =
      (ahead o stack).extend
        (elementRow o stack closed (numbers (firstInside (o :: stack)) siblings.reverse) ::
          forestRows (some (o.id stack)) (firstInside (o :: stack)) 0 siblings.reverse) := by
  rw [ofStack, List.reverse_cons, numbers_append, forestRows_append, ahead, extend_extend]
  simp [firstInside, OpenElement.id, elementRow]

lemma ofStack_cons : ofStack siblings (o :: stack) =
    (ahead o stack).extend
      (elementRow o stack false (numbers (firstInside (o :: stack)) siblings.reverse) ::
        forestRows (some (o.id stack)) (firstInside (o :: stack)) 0 siblings.reverse) := by
  rw [ofStack, around_cons, extend_extend]
  rfl

/-- Ending the open elements leaves the table as it is. -/
lemma ofForest_unwind :
    ofForest (Builder.unwind siblings stack).reverse = ofStack siblings stack := by
  induction stack generalizing siblings with
  | nil => rfl
  | cons o stack ih => rw [Builder.unwind, ih, ofStack_element, ofStack_cons]

lemma length_ofStack :
    (ofStack siblings stack).rows.length = firstInside stack + count siblings.reverse := by
  rw [ofStack, length_extend, length_around, length_forestRows]

lemma row?_extend {rows : List Row} {id : Nat} {r : Row} (h : t.row? id = some r) :
    (t.extend rows).row? id = some r := by
  rw [row?, extend, List.getElem?_append_left (lt_of_row? h)]
  exact h

lemma row?_extend_cons (r : Row) (rows : List Row) :
    (t.extend (r :: rows)).row? t.rows.length = some r := by
  rw [row?, extend, List.getElem?_append_right (Nat.le_refl _), Nat.sub_self]
  rfl

/-- The number of an open element is that of its row, where it is not closed. -/
lemma row?_around {id : Nat} (h : id ∈ openIds stack) :
    ∃ o ∈ stack, ∃ r, (around stack inner).row? id = some r ∧
      r.node = .element o.head false [] := by
  induction stack generalizing inner with
  | nil => cases h
  | cons o stack ih =>
    rw [around_cons]
    rcases List.mem_cons.1 h with rfl | h
    · refine ⟨o, List.mem_cons_self, elementRow o stack false inner, ?_, rfl⟩
      rw [← length_ahead]
      exact row?_extend_cons _ _
    · obtain ⟨o', ho, r, hr, hn⟩ := ih h
      exact ⟨o', List.mem_cons_of_mem _ ho, r, row?_extend (row?_extend hr), hn⟩

/-! ### What is written to -/

lemma modify_append_cons {α : Type} (f : α → α) (l l' : List α) (a : α) :
    (l ++ a :: l').modify l.length f = l ++ f a :: l' :=
  List.modifyTailIdx_add (List.modifyHead f) 0 l (a :: l')

/-- The list that the next node is put into. -/
lemma under_ofStack : (ofStack siblings stack).under (openIds stack).head? =
    numbers (firstInside stack) siblings.reverse := by
  cases stack with
  | nil => rfl
  | cons o stack =>
    rw [ofStack_cons, openIds, List.head?_cons, under]
    rw [← length_ahead, childrenOf_eq (row?_extend_cons _ _)]
    rfl

lemma addChild_around (rows : List Row) (id : Nat) :
    ((around stack inner).extend rows).addChild (openIds stack).head? id =
      (around stack (inner ++ [id])).extend rows := by
  cases stack with
  | nil => rfl
  | cons o stack =>
    rw [around_cons, around_cons, extend_extend, extend_extend, openIds, List.head?_cons, addChild,
      ← length_ahead]
    simp only [extend, List.singleton_append, modify_append_cons, elementRow]

lemma close_ofStack : (ofStack siblings (o :: stack)).close (o.id stack) =
    ofStack (.element o.head true siblings.reverse :: o.before) stack := by
  rw [ofStack_cons, ofStack_element, close, ← length_ahead]
  simp only [extend, modify_append_cons, elementRow, Node.close]

lemma forestRows_single {parent : Option Nat} {start index : Nat} {n : Node}
    (h : n.children = []) : forestRows parent start index [n] = [⟨n, parent, index, []⟩] := by
  cases n with
  | leaf kind raw line => simp
  | element head closed children =>
    obtain rfl : children = [] := h
    simp

/-- A node without children goes behind the newest siblings. -/
lemma append_ofStack {n : Node} (h : n.children = []) :
    (ofStack siblings stack).append (openIds stack).head? n = ofStack (n :: siblings) stack := by
  have hgrown : ((ofStack siblings stack).addChild (openIds stack).head?
      (ofStack siblings stack).rows.length) =
      (around stack (numbers (firstInside stack) (siblings.reverse ++ [n]))).extend
        (forestRows (openIds stack).head? (firstInside stack) 0 siblings.reverse) := by
    rw [length_ofStack, numbers_append]
    exact addChild_around _ _
  rw [append, hgrown, under_ofStack, length_numbers]
  change (extend _ _).extend _ = _
  rw [ofStack, extend_extend, List.reverse_cons, forestRows_append, forestRows_single h,
    Nat.zero_add]

end NodeTable

end HtmlTemplate
