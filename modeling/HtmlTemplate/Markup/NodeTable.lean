import HtmlTemplate.Markup.Node

/-!
The nodes of a template as a table. A node's number is its place in document order; each row
knows its parent, its children and its position among its siblings.
-/

namespace HtmlTemplate

/-- A node with the numbers of its parent and children, and its position among its siblings. The
node stands alone: what is below it is in other rows. -/
structure Row where
  node : Node
  parent : Option Nat
  index : Nat
  children : List Nat

/-- All nodes in document order, and the numbers of those at the top. -/
structure NodeTable where
  rows : List Row
  roots : List Nat

/-- The numbers of trees that follow each other, the first of them at `start`. -/
def numbers : (start : Nat) → List Node → List Nat
  | _, [] => []
  | start, n :: ns => start :: numbers (start + n.nodes.length) ns

mutual

/-- The rows of a node and all below it, numbered from `start` on. -/
def nodeRows (parent : Option Nat) (start index : Nat) : Node → List Row
  | .leaf kind raw line => [⟨.leaf kind raw line, parent, index, []⟩]
  | .element head closed children =>
    ⟨.element head closed [], parent, index, numbers (start + 1) children⟩ ::
      forestRows (some start) (start + 1) 0 children

/-- The rows of trees that are siblings from position `index` on. -/
def forestRows (parent : Option Nat) (start index : Nat) : List Node → List Row
  | [] => []
  | n :: ns =>
    nodeRows parent start index n ++ forestRows parent (start + n.nodes.length) (index + 1) ns

end

namespace NodeTable

def ofForest (ns : List Node) : NodeTable := ⟨forestRows none 0 0 ns, numbers 0 ns⟩

def row? (t : NodeTable) (id : Nat) : Option Row := t.rows[id]?

/-- The children of a node. -/
def childrenOf (t : NodeTable) (id : Nat) : List Nat :=
  match t.row? id with
  | some r => r.children
  | none => []

/-- The nodes right below a parent; those at the top have none. -/
def under (t : NodeTable) : (parent : Option Nat) → List Nat
  | some p => t.childrenOf p
  | none => t.roots

/-- The list that a node stands in. -/
def siblings (t : NodeTable) (r : Row) : List Nat := t.under r.parent

def isElement (t : NodeTable) (id : Nat) : Bool :=
  match t.row? id with
  | some r => r.node.isElement
  | none => false

def next? (t : NodeTable) (id : Nat) : Option Nat := do
  let r ← t.row? id
  (t.siblings r)[r.index + 1]?

def prev? (t : NodeTable) (id : Nat) : Option Nat := do
  let r ← t.row? id
  if r.index = 0 then none else (t.siblings r)[r.index - 1]?

def nextElement? (t : NodeTable) (id : Nat) : Option Nat := do
  let r ← t.row? id
  ((t.siblings r).drop (r.index + 1)).find? t.isElement

def prevElement? (t : NodeTable) (id : Nat) : Option Nat := do
  let r ← t.row? id
  ((t.siblings r).take r.index).reverse.find? t.isElement

/-- Visits nodes depth first: the first number is taken off the list and its children are put
in front. At most `steps` nodes are visited. -/
def visit (t : NodeTable) : (steps : Nat) → List Nat → List Nat
  | 0, _ => []
  | _ + 1, [] => []
  | steps + 1, id :: ids => id :: visit t steps (t.childrenOf id ++ ids)

/-- All nodes, depth first from the roots. -/
def descendants (t : NodeTable) : List Nat := t.visit t.rows.length t.roots

end NodeTable

end HtmlTemplate
