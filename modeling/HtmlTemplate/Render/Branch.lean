import HtmlTemplate.Render.Directive
import HtmlTemplate.Render.Scope

/-!
Which branches are taken. All conditions of a sibling list are decided before any sibling is
rendered; text and comments between branches do not matter, any other element ends a chain.
-/

namespace HtmlTemplate

/-- Where a sibling list stands: outside any chain of branches, or inside one, with or without a
branch already taken. -/
inductive BranchState where
  | outside
  | inside (taken : Bool)
  deriving DecidableEq

/-- Whether the condition of a branch holds. -/
def branchHolds (scope : Scope) (n : Node) : Render Bool := do
  let on ← demand "on" n
  return (← scope.evaluate on).countsAsTrue

def strayBranch {α : Type} (n : Node) : Render α :=
  Render.misuse .structuralOrder (n.tag ++ " must follow t-if or t-elif")

/-- Decides an element: whether it is taken, if it is a branch, and where the list stands
after it. -/
def decideElement (scope : Scope) (state : BranchState) (n : Node) :
    Render (Option Bool × BranchState) :=
  match Directive.ofTag? n.tag, state with
  | some .ifBranch, _ => do
    let taken ← branchHolds scope n
    return (some taken, .inside taken)
  | some .elifBranch, .outside => do
    let _ ← demand "on" n
    strayBranch n
  | some .elifBranch, .inside true => do
    let _ ← demand "on" n
    return (some false, .inside true)
  | some .elifBranch, .inside false => do
    let taken ← branchHolds scope n
    return (some taken, .inside taken)
  | some .elseBranch, .outside => strayBranch n
  | some .elseBranch, .inside taken => return (some !taken, .outside)
  | _, _ => return (none, .outside)

/-- Decides all siblings from one on. -/
def decideFrom (t : Template) (scope : Scope) (state : BranchState) :
    List Node → Render (List (Option Bool))
  | [] => return []
  | n :: ns => do
    if n.isElement then
      let (taken, state) ← Render.within (t.place n) (decideElement scope state n)
      return taken :: (← decideFrom t scope state ns)
    else return none :: (← decideFrom t scope state ns)

/-- For each sibling that is a branch, whether it is taken. -/
def decideBranches (t : Template) (scope : Scope) (ns : List Node) :
    Render (List (Option Bool)) := decideFrom t scope .outside ns

end HtmlTemplate
