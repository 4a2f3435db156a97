import HtmlTemplate.Json.Value

/-!
Variables in scope: layers of bindings, the innermost first. A layer hides the bindings of the
same names below it and leaves them as they are.
-/

namespace HtmlTemplate

structure Context where
  layers : List (Record Json)

namespace Context

def empty : Context := ⟨[]⟩

/-- A context with the members of an object as its variables; `null` has none, and no other
value has any. -/
def ofJson? : Json → Option Context
  | .object members => some ⟨[members]⟩
  | .null => some empty
  | _ => none

/-- The innermost value bound to a name. -/
def get? (c : Context) (name : Text) : Option Json :=
  c.layers.findSome? fun layer => layer.get? name

def has (c : Context) (name : Text) : Bool := (c.get? name).isSome

/-- Binds all of `vars` at once. -/
def extend (c : Context) (vars : Record Json) : Context := ⟨vars :: c.layers⟩

def bind (c : Context) (name : Text) (value : Json) : Context := c.extend [(name, value)]

/-- All visible bindings, outer ones first; a hidden name keeps its place. -/
def members (c : Context) : Record Json := c.layers.reverse.foldl Record.setAll []

def toJson (c : Context) : Json := .object c.members

end Context

end HtmlTemplate
