import HtmlTemplate.Markup.Node

/-!
The tree expansions under way. Each has a number of its own, by which the elements inside it
find the template to repeat.
-/

namespace HtmlTemplate

/-- A parsed template together with the file it came from. -/
structure Template where
  file : Option Text
  nodes : List Node

/-- What is repeated at every level of a tree: nodes of a template, for the items that a variable
is bound to in turn. -/
structure Expansion where
  template : Template
  body : List Node
  item : Text

/-- The expansions under way, newest first, and how many there ever were. -/
structure Expansions where
  active : List (Nat × Expansion)
  begun : Nat

namespace Expansions

def empty : Expansions := ⟨[], 0⟩

/-- Begins an expansion under the next number. -/
def start (r : Expansions) (x : Expansion) : Nat × Expansions :=
  (r.begun, ⟨(r.begun, x) :: r.active, r.begun + 1⟩)

def get? (r : Expansions) (id : Nat) : Option Expansion := r.active.lookup id

/-- Ends an expansion. -/
def finish (r : Expansions) (id : Nat) : Expansions :=
  { r with active := r.active.filter fun x => x.1 ≠ id }

end Expansions

end HtmlTemplate
