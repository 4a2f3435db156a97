import HtmlTemplate.Render.Directive
import HtmlTemplate.Render.Scope

/-!
Loops: the items a loop runs over, the variables each of them binds, and which of them are
rendered.
-/

namespace HtmlTemplate

/-- An item of a loop under its key. -/
structure LoopItem where
  key : Json
  value : Json

namespace LoopItem

def ofPair (p : Json × Nat) : LoopItem := ⟨.ofNat p.2, p.1⟩

/-- Every `step`-th of the items, under their positions. -/
def every (step : Nat) (vs : List Json) : List LoopItem :=
  (vs.zipIdx.filter fun p => p.2 % step == 0).map ofPair

/-- All items, under their positions in words. -/
def all (vs : List Json) : List LoopItem :=
  vs.zipIdx.map fun p => ⟨.string (Text.numeral p.2), p.1⟩

/-- All members of an object, under their names. -/
def members (ms : Record Json) : List LoopItem := ms.map fun m => ⟨.string m.1, m.2⟩

/-- Every `step`-th number from `first` to `last`. -/
def range (step first last : Nat) : List LoopItem :=
  ((List.range (last + 1 - first)).filter fun i => i % step == 0).map fun i =>
    ⟨.ofNat i, .ofNat (first + i)⟩

/-- The variables that an item binds. Over keys without a variable for them, the item itself
is bound with both. -/
def bindings (l : LoopHead) (item : LoopItem) : Record Json :=
  match l.kind, l.key with
  | .keys, none => [(l.value, .object [("key", item.key), ("value", item.value)])]
  | .values, none => [(l.value, item.value)]
  | _, some key => Record.set [(l.value, item.value)] key item.key

end LoopItem

/-- Reads the `on` of a loop. -/
def readLoop (on : Text) : Render LoopHead :=
  match LoopHead.parse? on with
  | some l => pure l
  | none =>
    Render.misuse .invalidExpression ("Invalid expression for t-for: \"" ++ on ++
      "\", expected \"<value>[, <key>] of|in <data>\"")

/-- The step of a loop, which counts only over values. -/
def loopStep (kind : LoopOver) (step : Option Text) : Render Nat :=
  match kind, step with
  | .values, some t =>
    match (Text.index? (Text.trim t)).filter (0 < ·) with
    | some n => pure n
    | none =>
      Render.misuse .invalidExpression ("step must be a positive integer, got \"" ++ t ++ "\"")
  | _, _ => pure 1

/-- The items that a value has for a loop. -/
def itemsOf? (kind : LoopOver) (step : Nat) : Json → Option (List LoopItem)
  | .array vs => some (match kind with
    | .values => LoopItem.every step vs
    | .keys => LoopItem.all vs)
  | .object ms => match kind with | .values => none | .keys => some (LoopItem.members ms)
  | _ => none

def expectedData : LoopOver → Text
  | .values => "an array"
  | .keys => "an object or array"

/-- The items that a loop runs over. -/
def itemsFor (scope : Scope) (l : LoopHead) (step : Nat) : Render (List LoopItem) :=
  match l.data with
  | .range first last =>
    if LoopHead.maxRange ≤ last - first then
      Render.misuse .invalidExpression ("t-for range " ++ Text.numeral first ++ '-' ::
        Text.numeral last ++ " is longer than " ++ Text.numeral LoopHead.maxRange ++ " items")
    else pure (LoopItem.range step first last)
  | .expression source => do
    let v ← scope.evaluate source
    match itemsOf? l.kind step v with
    | some items => pure items
    | none =>
      Render.misuse .typeMismatch ("t-for data must be " ++ expectedData l.kind ++ ", got " ++
        v.kindName ++ ": " ++ source)

/-- Whether an optional condition is there and holds. -/
def holds (source : Option Text) (scope : Scope) : Render Bool :=
  match source with
  | some source => return (← scope.evaluate source).countsAsTrue
  | none => return false

/-- The scopes to be rendered, after those that are `chosen`, newest first: all before the first
one in which `stop` holds, without those in which `skip` holds. -/
def chooseFrom (stop skip : Option Text) (chosen : List Scope) : List Scope → Render (List Scope)
  | [] => return chosen.reverse
  | scope :: scopes => do
    if ← holds stop scope then return chosen.reverse
    else if ← holds skip scope then chooseFrom stop skip chosen scopes
    else chooseFrom stop skip (scope :: chosen) scopes

/-- The scopes in which the children of a loop are rendered, in order. -/
def loopScopes (n : Node) (scope : Scope) : Render (List Scope) := do
  let l ← readLoop (← demand "on" n)
  let step ← loopStep l.kind (n.attributes.get? "step")
  let items ← itemsFor scope l step
  chooseFrom (n.attributes.get? "break") (n.attributes.get? "continue") []
    (items.map fun item => scope.extend (item.bindings l))

end HtmlTemplate
