import HtmlTemplate.Render.Failure
import HtmlTemplate.Expr.Filling
import HtmlTemplate.Markup.TemplateCache
import HtmlTemplate.Render.Expansions

/-!
Computations that render. They keep a store of what may be remembered, and stop with an error,
with files that must be read first, or when they were asked to go too deep. Work on siblings is
shared out: a part that awaits a file lets the others go on, and a failure among few parts stops
them all at once, while among many parts it waits for those before it.
-/

namespace HtmlTemplate

/-- What rendering remembers: expressions, parsed templates, tree expansions under way, and the
texts it has had parsed as templates, newest first, no matter what came of them. -/
structure Store where
  memo : Memo
  cache : TemplateCache
  trees : Expansions
  parsed : List Text

/-- Why rendering stops without output. Only a failure is reported; what is awaited is read, and a
rendering that is too deep has used up its stack. -/
inductive Stop where
  | failed (e : Failure)
  | awaits (paths : List Text)
  | tooDeep

abbrev Render (α : Type) := ExceptT Stop (StateM Store) α

namespace Render

variable {α β : Type}

def fail (f : Fault) : Render α := throw (.failed (.ofFault f))

/-- Fails with a misused directive. -/
def misuse (kind : Misuse) (message : Text) : Render α := fail (.misuse kind message)

/-- Adds a place to the error that a computation fails with. -/
def within (place : Place) (x : Render α) : Render α :=
  tryCatch x fun
    | .failed e => throw (.failed (e.through place))
    | stop => throw stop

/-- Evaluates with the memo of the store. -/
def evaluating (x : Evaluation α) : Render α := ExceptT.mk fun s =>
  let (result, memo) := x.run.run s.memo
  let s := { s with memo := memo }
  match result with
  | .ok a => pure (.ok a, s)
  | .error e => pure (.error (.failed (.ofFault (.expression e))), s)

/-- Changes the tree expansions under way. -/
def onTrees (f : Expansions → α × Expansions) : Render α := ExceptT.mk fun s =>
  let (a, trees) := f s.trees
  pure (.ok a, { s with trees := trees })

/-- Does `x` inside a new tree expansion, which ends with it however it ends. -/
def insideTree (f : Expansion) (x : Nat → Render α) : Render α := ExceptT.mk fun s =>
  let (id, trees) := s.trees.start f
  let (result, s) := (x id).run.run { s with trees := trees }
  pure (result, { s with trees := s.trees.finish id })

/-- The greatest number of parts among which a failure does not wait. -/
def hastyParts : Nat := 30

/-- The parts still to be done, after some that are `done`, newest first, and others that await
the files `waiting`. A failure counts at once if `hasty`, or else if no part before it waits. -/
def fanOutFrom (f : α → Render β) (hasty : Bool) (done : List β) (waiting : List Text) :
    List α → Render (List β)
  | [] => if waiting = [] then pure done.reverse else throw (.awaits waiting)
  | a :: as => ExceptT.mk fun s =>
    match (f a).run.run s with
    | (.ok b, s) => (fanOutFrom f hasty (b :: done) waiting as).run.run s
    | (.error (.awaits paths), s) => (fanOutFrom f hasty done (waiting ++ paths) as).run.run s
    | (.error stop, s) =>
      pure (.error (if hasty || waiting.isEmpty then stop else .awaits waiting), s)

/-- Does all parts and gives their results in order. The first failure that counts stops the
work; if some parts await files and none fails, the whole awaits all those files. -/
def fanOut (f : α → Render β) (as : List α) : Render (List β) :=
  fanOutFrom f (as.length ≤ hastyParts) [] [] as

/-- Does two parts, in the same way. -/
def both (x : Render α) (y : Render β) : Render (α × β) := ExceptT.mk fun s =>
  match x.run.run s with
  | (.ok a, s) => (Prod.mk a <$> y).run.run s
  | (.error (.awaits paths), s) =>
    match y.run.run s with
    | (.error (.awaits more), s) => pure (.error (.awaits (paths ++ more)), s)
    | (.error stop, s) => pure (.error stop, s)
    | (.ok _, s) => pure (.error (.awaits paths), s)
  | (.error stop, s) => pure (.error stop, s)

end Render

end HtmlTemplate
