import Mathlib.Data.List.FinRange
import HtmlTemplate.Proofs.Render.Walk

/-!
Rendering with its parts done in other orders.

Siblings, the items of a loop or of a tree, and the fills of an inclusion are parts of a work that
is shared out. They are done one after another on one store, and put together by their positions. A
schedule says in which order they are done, for every such work by itself.
-/

namespace HtmlTemplate

/-- How `n` parts are done: in order, until one of them stops the work, or all of them to their
ends, each when its turn comes. -/
inductive Course (n : Nat) where
  | straight
  | reordered (order : List (Fin n)) (each : order.Perm (List.finRange n))

/-- A course for every work that is shared out. It may depend on the positions of the parts inside
which the work stands, outermost first. -/
abbrev Schedule := List Nat → (n : Nat) → Course n

variable {α β : Type}

namespace Render

/-- Does parts to their ends, one after another, and says what came of each. -/
def outcomes (f : α → Render β) : List α → Store → List (α × Except Stop β) × Store
  | [], s => ([], s)
  | a :: as, s =>
    let (result, s) := (f a).run.run s
    let (rest, s) := outcomes f as s
    ((a, result) :: rest, s)

lemma outcomes_cons (f : α → Render β) (a : α) (as : List α) (s : Store) :
    outcomes f (a :: as) s =
      let (result, s) := exec (f a) s
      ((a, result) :: (outcomes f as s).1, (outcomes f as s).2) := rfl

/-- What a part has come to, whatever the store. -/
def done (result : Except Stop α) : Render α := ExceptT.mk (pure result)

/-- Puts together what came of all parts, in order. -/
def joined (results : List (Except Stop β)) : Render (List β) := fanOut done results

end Render

namespace Schedule

def straight : Schedule := fun _ _ => .straight

/-- The schedule inside one part. -/
def inPart (σ : Schedule) (i : Nat) : Schedule := fun path => σ (i :: path)

/-- Does all parts on the course that the schedule has for them. -/
def fanOut (σ : Schedule) (f : Schedule → α → Render β) (as : List α) : Render (List β) :=
  match σ [] as.length with
  | .straight => Render.fanOut (fun (a, i) => f (σ.inPart i) a) as.zipIdx
  | .reordered order _ => ExceptT.mk fun s =>
    let (done, s) := Render.outcomes (fun i : Fin as.length => f (σ.inPart i) as[i]) order s
    (Render.joined ((List.finRange as.length).filterMap (done.lookup ·))).run.run s

end Schedule

namespace Scheduled

variable (setup : Setup) (walk : Schedule → Walk) (σ : Schedule)

def renderIn (t : Template) (body : List Node) (scopes : List Scope) : Render Text := do
  return (← σ.fanOut (fun σ scope => walk σ t body scope) scopes).flatten

def renderLoop (t : Template) (n : Node) (scope : Scope) : Render Text := do
  renderIn walk σ t n.children (← loopScopes n scope)

def renderItems (id : Nat) (items : List Json) (scope : Scope) : Render Text := do
  let f ← Node.expansionOf id
  renderIn walk σ f.template f.body (items.map fun v => scope.extend [(f.item, v)])

def renderTree (t : Template) (n : Node) (scope : Scope) : Render Text := do
  let b ← Node.readBinding (← demand "on" n)
  match ← scope.evaluate b.data with
  | .array items =>
    Render.insideTree ⟨t, n.children, b.item⟩ fun id =>
      renderItems walk σ id items { scope with tree := some id }
  | _ => Render.misuse .typeMismatch ("Data must be an Array for t-tree: " ++ b.data)

def renderChildren (n : Node) (scope : Scope) : Render Text := do
  match scope.tree with
  | none => Node.strayChildren
  | some id =>
    let f ← Node.expansionOf id
    let field := (n.attributes.get? "field").getD "children"
    match Node.itemField scope.context f.item field with
    | .array items => renderItems walk σ id items scope
    | v =>
      if v.countsAsTrue then
        Render.misuse .typeMismatch ("t-children field \"" ++ field ++
          "\" must be an Array, got " ++ v.kindName)
      else return []

def renderFills (t : Template) (fills : List (Text × Node)) (scope : Scope) :
    Render (Record Text) := do
  let parts ← σ.fanOut
    (fun σ (_, n) => Render.within (t.place n) (walk σ t n.children scope)) fills
  return (fills.map Prod.fst).zip parts

/-- An inclusion. Its fills and the file are two parts of it. -/
def renderInclusion (t : Template) (n : Node) (scope : Scope) : Render Text := do
  let file ← demand "file" n
  let fills ← fillsOf t n
  let path ← Node.includedPath t file
  let (filled, source) ←
    Render.both (renderFills walk (σ.inPart 0) t fills scope) (readFile setup.loader path)
  let u ← loadTemplate setup.cache (some path) source
  walk (σ.inPart 1) u u.nodes (scope.included filled)

def renderDirective (t : Template) (n : Node) (scope : Scope) (taken : Bool) :
    Directive → Render Text
  | .loop => renderLoop walk σ t n scope
  | .tree => renderTree walk σ t n scope
  | .children => renderChildren walk σ n scope
  | .inclusion => renderInclusion setup walk σ t n scope
  | d => Node.renderDirective setup (walk σ) t n scope taken d

def renderElement (t : Template) (n : Node) (scope : Scope) (taken : Bool) : Render Text :=
  match Directive.ofTag? n.tag with
  | some d => Node.mark setup d <$> renderDirective setup walk σ t n scope taken d
  | none => Node.renderPlain (walk σ) t n scope

def renderNode (t : Template) (scope : Scope) (n : Node) (taken : Option Bool) : Render Text :=
  Node.siblingsBy.nodeBy t scope (fun n => renderElement setup walk σ t n scope) n taken

def renderSiblings : Walk := fun t ns scope => do
  let taken ← decideBranches t scope ns
  let parts ← σ.fanOut (fun σ (n, b) => renderNode setup walk σ t scope n b) (ns.zip taken)
  return parts.flatten

end Scheduled

/-- Renders siblings as scheduled, with at most `depth` lists of nodes inside each other. -/
def Scheduled.walk (setup : Setup) : (depth : Nat) → Schedule → Walk
  | 0, _, _, _, _ => throw .tooDeep
  | depth + 1, σ, t, ns, scope => renderSiblings setup (walk setup depth) σ t ns scope

/-! ### The straight schedule -/

lemma Schedule.fanOut_straight (f : Schedule → α → Render β) (as : List α) :
    straight.fanOut f as = Render.fanOut (f straight) as := by
  change Render.fanOut (f straight ∘ Prod.fst) as.zipIdx = _
  rw [← Render.fanOut_map, List.zipIdx_map_fst]

namespace Scheduled

variable (setup : Setup) (walk : Schedule → Walk) (t : Template) (n : Node) (scope : Scope)

lemma renderIn_straight (body : List Node) (scopes : List Scope) :
    renderIn walk .straight t body scopes = Node.renderIn (walk .straight) t body scopes := by
  rw [renderIn, Node.renderIn, Schedule.fanOut_straight]

lemma renderItems_straight (id : Nat) (items : List Json) :
    renderItems walk .straight id items scope =
      Node.renderItems (walk .straight) id items scope := by
  simp only [renderItems, Node.renderItems, renderIn_straight]

lemma renderTree_straight :
    renderTree walk .straight t n scope = Node.renderTree (walk .straight) t n scope := by
  simp only [renderTree, renderItems_straight]
  rfl

lemma renderChildren_straight :
    renderChildren walk .straight n scope = Node.renderChildren (walk .straight) n scope := by
  simp only [renderChildren, renderItems_straight]
  rfl

lemma renderFills_straight (fills : List (Text × Node)) :
    renderFills walk .straight t fills scope =
      Node.renderFills (walk .straight) t fills scope := by
  rw [renderFills, Node.renderFills, Schedule.fanOut_straight]

lemma renderInclusion_straight :
    renderInclusion setup walk .straight t n scope =
      Node.renderInclusion setup (walk .straight) t n scope := by
  have hfills := renderFills_straight walk t
  simp only [renderInclusion, Node.renderInclusion, ← hfills]
  rfl

lemma renderDirective_straight (taken : Bool) (d : Directive) :
    renderDirective setup walk .straight t n scope taken d =
      Node.renderDirective setup (walk .straight) t n scope taken d := by
  cases d with
  | loop => simp only [renderDirective, renderLoop, renderIn_straight]; rfl
  | tree => exact renderTree_straight walk t n scope
  | children => exact renderChildren_straight walk n scope
  | inclusion => exact renderInclusion_straight setup walk t n scope
  | ifBranch | elifBranch | elseBranch | binding | hole | fill | html => rfl

lemma renderNode_straight (taken : Option Bool) :
    renderNode setup walk .straight t scope n taken =
      Node.render setup (walk .straight) t scope n taken := by
  have helement : ∀ n taken, renderElement setup walk .straight t n scope taken =
      Node.renderElement setup (walk .straight) t n scope taken := by
    intro n taken
    simp only [renderElement, renderDirective_straight]
    rfl
  cases n with
  | leaf kind raw line => cases kind <;> rfl
  | element head closed children => exact congrArg (Render.within _) (helement _ _)

lemma renderSiblings_straight (ns : List Node) :
    renderSiblings setup walk .straight t ns scope =
      Node.renderSiblings setup (walk .straight) t ns scope := by
  simp only [renderSiblings, Node.renderSiblings, Schedule.fanOut_straight, renderNode_straight]

lemma walk_straight (depth : Nat) :
    Scheduled.walk setup depth .straight = HtmlTemplate.walk setup depth := by
  induction depth with
  | zero => rfl
  | succ depth ih =>
    funext t ns scope
    rw [Scheduled.walk, HtmlTemplate.walk, renderSiblings_straight, ih]

end Scheduled

/-! ### Parts -/

/-- A part of a work that is shared out: a node among its siblings, with what is decided of it if
it is a branch; the body of a loop or a tree for one item; or a fill of an inclusion. -/
inductive Part where
  | node (t : Template) (scope : Scope) (n : Node) (taken : Option Bool)
  | item (t : Template) (body : List Node) (scope : Scope)
  | fill (t : Template) (n : Node) (scope : Scope)

namespace Part

variable (setup : Setup)

/-- Does a part as the renderer does it. -/
def render (walk : Walk) : Part → Render Text
  | .node t scope n taken => Node.render setup walk t scope n taken
  | .item t body scope => walk t body scope
  | .fill t n scope => Render.within (t.place n) (walk t n.children scope)

/-- Does a part as scheduled. -/
def renderAs (walk : Schedule → Walk) (σ : Schedule) : Part → Render Text
  | .node t scope n taken => Scheduled.renderNode setup walk σ t scope n taken
  | .item t body scope => walk σ t body scope
  | .fill t n scope => Render.within (t.place n) (walk σ t n.children scope)

lemma renderAs_straight (walk : Schedule → Walk) (x : Part) :
    x.renderAs setup walk .straight = x.render setup (walk .straight) := by
  cases x with
  | node t scope n taken => exact Scheduled.renderNode_straight setup walk t n scope taken
  | item | fill => rfl

end Part

end HtmlTemplate
