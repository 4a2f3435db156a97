import HtmlTemplate.Text.Basic

/-!
Paths with slashes, taken as text. Folding a path removes steps that lead nowhere and lets a
step up cancel the name before it, without looking at any file.
-/

namespace HtmlTemplate

/-- One step of a path: up to the directory above, or down to a name. -/
inductive Step where
  | up
  | down (name : Text)
  deriving DecidableEq

/-- Whether a path starts at the root, and its steps. -/
structure Path where
  rooted : Bool
  steps : List Step
  deriving DecidableEq

namespace Path

def step? (part : Text) : Option Step :=
  if part = [] ∨ part = ['.'] then none
  else if part = ['.', '.'] then some .up
  else some (.down part)

/-- Reads a path. Repeated slashes, and points that stand for the same directory, are passed
over. -/
def ofText (t : Text) : Path :=
  ⟨t.startsWith ['/'], (Text.splitAt (· == '/') t).filterMap step?⟩

def stepText : Step → Text
  | .up => ['.', '.']
  | .down name => name

def toText (p : Path) : Text :=
  (if p.rooted then ['/'] else []) ++ Text.joinWith ['/'] (p.steps.map stepText)

/-- Adds a step to folded steps, which are kept last step first. -/
def foldStep (rooted : Bool) : List Step → Step → List Step
  | .down _ :: steps, .up => steps
  | steps, .up => if rooted then steps else .up :: steps
  | steps, .down name => .down name :: steps

/-- A path without steps that cancel each other; nothing is above the root. -/
def fold (p : Path) : Path :=
  ⟨p.rooted, (p.steps.foldl (foldStep p.rooted) []).reverse⟩

/-- A path seen from another; one from the root stands for itself. -/
def join (p q : Path) : Path := if q.rooted then q else { p with steps := p.steps ++ q.steps }

/-- The path without its last step; without steps, the empty path. -/
def parent (p : Path) : Path :=
  if p.steps = [] then ⟨false, []⟩ else { p with steps := p.steps.dropLast }

/-- The folded text of a path. -/
def normalize (t : Text) : Text := (ofText t).fold.toText

/-- The path that `relative` means in the file at `base`. -/
def resolve (base relative : Text) : Text :=
  ((ofText base).parent.join (ofText relative)).fold.toText

end Path

end HtmlTemplate
