import HtmlTemplate.Expr.Context
import HtmlTemplate.Render.Basic

/-!
What the rendering of a node depends on besides the node: the variables in scope, and what the
directives around it have set up.
-/

namespace HtmlTemplate

/-- `tree` is the innermost tree expansion, `raw` holds where values are not escaped, and `fills`
is the rendered content for the holes of the included file. -/
structure Scope where
  context : Context
  tree : Option Nat
  raw : Bool
  fills : Option (Record Text)

def Scope.ofContext (c : Context) : Scope := ⟨c, none, false, none⟩

/-- A scope with more variables. -/
def Scope.extend (scope : Scope) (vars : Record Json) : Scope :=
  { scope with context := scope.context.extend vars }

/-- The scope of an included file: the variables around the inclusion, and its fills. -/
def Scope.included (scope : Scope) (fills : Record Text) : Scope :=
  { scope with tree := none, fills := some fills }

/-- How a rendering is set up: where files come from, whether parsed templates are kept, and
whether directives are marked. -/
structure Setup where
  loader : Loader
  cache : Bool
  debug : Bool

/-- Renders sibling nodes of a template in a scope. -/
abbrev Walk := Template → List Node → Scope → Render Text

namespace Template

/-- The place of a node. -/
def place (t : Template) (n : Node) : Place := Place.of t.file n.line n.raw

end Template

/-- The value of an expression in a scope. -/
def Scope.evaluate (scope : Scope) (source : Text) : Render Json :=
  Render.evaluating (HtmlTemplate.evaluate scope.context source)

/-- A text with its expressions filled in. -/
def Scope.fillIn (scope : Scope) (t : Text) : Render Text :=
  Render.evaluating (HtmlTemplate.fillIn scope.context scope.raw t)

/-- An attribute that a directive cannot do without. -/
def demand (name : Text) (n : Node) : Render Text :=
  match n.attributes.get? name with
  | some v => pure v
  | none => Render.misuse .missingAttribute ("Missing attribute \"" ++ name ++ "\" for " ++ n.tag)

end HtmlTemplate
