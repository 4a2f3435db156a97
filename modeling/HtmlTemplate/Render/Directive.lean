import HtmlTemplate.Text.Letter
import HtmlTemplate.Text.Numeral
import HtmlTemplate.Text.Space

/-!
The elements that direct rendering, and what is written in their attributes.
-/

namespace HtmlTemplate

inductive Directive where
  | ifBranch
  | elifBranch
  | elseBranch
  | loop
  | binding
  | tree
  | children
  | inclusion
  | hole
  | fill
  | html
  deriving DecidableEq

namespace Directive

def tag : Directive → Text
  | ifBranch => "t-if"
  | elifBranch => "t-elif"
  | elseBranch => "t-else"
  | loop => "t-for"
  | binding => "t-with"
  | tree => "t-tree"
  | children => "t-children"
  | inclusion => "t-include"
  | hole => "t-hole"
  | fill => "t-fill"
  | html => "t-html"

def all : List Directive :=
  [ifBranch, elifBranch, elseBranch, loop, binding, tree, children, inclusion, hole, fill, html]

/-- The directive that a tag names. -/
def ofTag? (t : Text) : Option Directive := all.find? fun d => d.tag = t

/-- Whether debug output marks the beginning and the end of what a directive renders. -/
def isMarked : Directive → Bool
  | ifBranch | elifBranch | elseBranch | loop | binding | tree | inclusion | html => true
  | children | hole | fill => false

/-- Whether debug output marks what an element with this tag renders. -/
def marksTag (t : Text) : Bool :=
  match ofTag? t with
  | some d => d.isMarked
  | none => false

end Directive

/-- Whether a text can name a template variable. -/
def isVariableName : Text → Bool
  | [] => false
  | c :: t =>
    (Text.isAlphabetic c || c == '_' || c == '$') &&
      t.all fun c => Text.isAlphanumeric c || c == '_' || c == '$'

/-- `of` loops over values, `in` over keys. -/
inductive LoopOver where
  | values
  | keys
  deriving DecidableEq

/-- What a loop runs over: the whole numbers from one to another, or the value of an expression. -/
inductive LoopData where
  | range (first last : Nat)
  | expression (source : Text)
  deriving DecidableEq

/-- What is written in the `on` of a loop: variables for the value and the key, and what it runs
over. -/
structure LoopHead where
  value : Text
  key : Option Text
  kind : LoopOver
  data : LoopData
  deriving DecidableEq

namespace LoopHead

/-- The longest range that a loop may run over. -/
def maxRange : Nat := 100000

/-- A number stands for the range from zero to it, and two numbers with a hyphen for the range
from the first to the second. -/
def range? (t : Text) : Option LoopData :=
  match Text.cut? ['-'] t with
  | none => (Text.natural63? t).map (.range 0)
  | some (a, b) => do return .range (← Text.natural63? a) (← Text.natural63? b)

def kind? (word : Text) : Option LoopOver :=
  if word = ("of" : Text) then some .values
  else if word = ("in" : Text) then some .keys
  else none

/-- The words before the first `of` or `in`, which of the two it is, and the words after it. -/
def splitWords : List Text → Option (List Text × LoopOver × List Text)
  | [] => none
  | w :: ws =>
    match kind? w with
    | some kind => some ([], kind, ws)
    | none => (splitWords ws).map fun (before, kind, after) => (w :: before, kind, after)

/-- One variable name, or two with a comma between them. -/
def variables? (t : Text) : Option (Text × Option Text) :=
  match (Text.splitAt (· == ',') t).map Text.trim with
  | [value] => if isVariableName value then some (value, none) else none
  | [value, key] =>
    if isVariableName value && isVariableName key then some (value, some key) else none
  | _ => none

def data? (kind : LoopOver) (t : Text) : Option LoopData :=
  if t = [] then none
  else
    match kind with
    | .values => some ((range? t).getD (.expression t))
    | .keys => some (.expression t)

def parse? (on : Text) : Option LoopHead := do
  let (before, kind, after) ← splitWords (Text.words on)
  let (value, key) ← variables? (Text.joinWith [' '] before)
  return ⟨value, key, kind, ← data? kind (Text.joinWith [' '] after)⟩

end LoopHead

/-- What is written in the `on` of a tree: an expression, and a variable for its items. -/
structure TreeHead where
  data : Text
  item : Text
  deriving DecidableEq

/-- The expression stands before the first ` as `, and the variable after it. -/
def TreeHead.parse? (on : Text) : Option TreeHead :=
  match Text.cut? " as " on with
  | none => none
  | some (data, item) =>
    if Text.trim data ≠ [] ∧ isVariableName (Text.trim item) then
      some ⟨Text.trim data, Text.trim item⟩
    else none

end HtmlTemplate
