import HtmlTemplate.Expr.Eval

/-!
Remembering expressions that have been read. A memo maps texts to the trees they were read as;
it never changes what an expression means, and stops growing at its capacity.
-/

namespace HtmlTemplate

/-- Trees under the texts they were read from, at most `capacity` of them. -/
structure Memo where
  capacity : Nat
  entries : List (Text × Expr)

namespace Memo

def empty (capacity : Nat) : Memo := ⟨capacity, []⟩

def defaultCapacity : Nat := 4096

/-- Reads an expression, from memory if it is there. -/
def parse (m : Memo) (source : Text) : Except ParseError Expr × Memo :=
  match m.entries.lookup source with
  | some e => (.ok e, m)
  | none =>
    match Expr.parse source with
    | .error e => (.error e, m)
    | .ok e =>
      (.ok e, if m.entries.length < m.capacity then { m with entries := (source, e) :: m.entries }
        else m)

end Memo

/-- A computation that evaluates expressions and remembers what it has read. -/
abbrev Evaluation (α : Type) := ExceptT EvalError (StateM Memo) α

/-- Reads an expression; white space around it does not count. -/
def readExpression (source : Text) : Evaluation Expr := ExceptT.mk fun m =>
  let (read, m) := m.parse (Text.trim source)
  match read with
  | .ok e => pure (.ok e, m)
  | .error e => pure (.error (.invalid (Text.trim source) e), m)

/-- The value of an expression in a context. -/
def evaluate (c : Context) (source : Text) : Evaluation Json := do
  let e ← readExpression source
  liftExcept (e.eval c)
where
  liftExcept (r : Except EvalError Json) : Evaluation Json := ExceptT.mk (pure r)

end HtmlTemplate
