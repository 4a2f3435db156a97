import HtmlTemplate.Expr.Eval
import HtmlTemplate.Files.Reading

/-!
Errors of rendering: what went wrong, and the places in templates it went through on its way
out, the innermost first.
-/

namespace HtmlTemplate

/-- How a directive can be misused. -/
inductive Misuse where
  | missingAttribute
  | invalidExpression
  | structuralOrder
  | typeMismatch
  | duplicateSlotName
  | invalidChild
  deriving DecidableEq

/-- What went wrong, wherever it was. -/
inductive Fault where
  | misuse (kind : Misuse) (message : Text)
  | expression (e : EvalError)
  | unreadable (path : Text) (e : IoError)
  | malformed (e : ParseError)
  deriving DecidableEq

def Fault.message : Fault → Text
  | misuse _ message => message
  | expression e => e.message
  | unreadable path e => "Cannot read " ++ path ++ ": " ++ e.message
  | malformed e => e.display

/-- A place in a template: its file if it has one, a line, and the first line of the source
there. -/
structure Place where
  file : Option Text
  line : Nat
  source : Text
  deriving DecidableEq

/-- The place of a piece of source, which is shown without the white space around it. -/
def Place.of (file : Option Text) (line : Nat) (raw : Text) : Place :=
  ⟨file, line, ((Text.lines (Text.trim raw)).head?).getD []⟩

/-- A fault, and the places it went through. -/
structure Failure where
  fault : Fault
  trace : List Place
  deriving DecidableEq

namespace Failure

def ofFault (f : Fault) : Failure := ⟨f, []⟩

/-- Adds the next place outwards. -/
def through (e : Failure) (p : Place) : Failure := { e with trace := e.trace ++ [p] }

/-- How many places enclose the innermost one. -/
def depth (e : Failure) : Nat := e.trace.length - 1

/-- The innermost place: its file and line, its source, and a row of carets under it. -/
def showOrigin (p : Place) : Text :=
  let line := Text.numeral p.line
  "\n\t" ++ p.file.getD "<inline>" ++ ':' :: line ++
  "\n\t" ++ line ++ ": " ++ p.source ++
  "\n\t" ++ Text.repeated (line.length + 2) ' ' ++ Text.repeated p.source.length '^'

/-- Enclosing places, each further in than the one before. -/
def showEnclosing : (level : Nat) → List Place → Text
  | _, [] => []
  | level, p :: ps =>
    "\n\t" ++ Text.repeated (2 * level) ' ' ++ Text.numeral p.line ++ ": " ++ p.source ++
      showEnclosing (level + 1) ps

/-- The report of an error. -/
def display (e : Failure) : Text :=
  e.fault.message ++
    match e.trace with
    | [] => []
    | origin :: enclosing => showOrigin origin ++ showEnclosing 1 enclosing

end Failure

end HtmlTemplate
