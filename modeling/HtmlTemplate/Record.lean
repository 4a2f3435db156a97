import HtmlTemplate.Text.Basic

/-!
Named values in the order in which the names were first set. Setting a name again replaces its
value and keeps its place.
-/

namespace HtmlTemplate

/-- Values under names, in order of first setting. -/
abbrev Record (α : Type) := List (Text × α)

namespace Record

variable {α : Type}

def get? (r : Record α) (name : Text) : Option α := r.lookup name

def has (r : Record α) (name : Text) : Bool := (r.get? name).isSome

def set : Record α → Text → α → Record α
  | [], name, a => [(name, a)]
  | (n, b) :: r, name, a => if n = name then (n, a) :: r else (n, b) :: set r name a

def setAll (r s : Record α) : Record α := s.foldl (fun r e => r.set e.1 e.2) r

def names (r : Record α) : List Text := r.map Prod.fst

end Record

end HtmlTemplate
