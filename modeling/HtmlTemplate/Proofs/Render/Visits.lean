import HtmlTemplate.Proofs.Render.Slots

/-!
Where a failure comes from.

A rendering visits lists of nodes. Rendering a node may lead to further visits: its children, the
body of the tree around, its fills, or the file that it includes. A failure is raised in some visit,
and comes out through the nodes that led there, one place for each of them; a fill has a place of
its own before that of its inclusion. Which nodes these are is said here by what is written in them
and by the values of their expressions, and not by what the renderer adds to a failure.
-/

namespace HtmlTemplate

section

variable {α : Type}

/-- What a computation gives, as long as the memo is sound. -/
def CanGive (x : Render α) (a : α) : Prop :=
  ∃ s : Store, s.memo.Sound ∧ (exec x s).1 = .ok a

/-- How a computation fails by itself, as long as the memo is sound. -/
def CanFail (x : Render α) (f : Fault) : Prop :=
  ∃ s : Store, s.memo.Sound ∧ (exec x s).1 = .error (.failed (.ofFault f))

end

/-! ### Branches -/

/-- Where a sibling list stands after its first nodes, if deciding these has not failed. -/
inductive Decided (scope : Scope) : List Node → BranchState → Prop
  | nil : Decided scope [] .outside
  | leaf {ns : List Node} {n : Node} {state : BranchState} :
    Decided scope ns state → n.isElement = false → Decided scope (ns ++ [n]) state
  | element {ns : List Node} {n : Node} {state next : BranchState} {taken : Option Bool} :
    Decided scope ns state → n.isElement = true →
    CanGive (decideElement scope state n) (taken, next) → Decided scope (ns ++ [n]) next

/-! ### Inclusions -/

namespace Node

/-- The names of the fills among nodes. -/
def fillNames (ns : List Node) : List Text := (ns.filter isFill).map slotName

/-- A child that an inclusion may not have behind others, and why. -/
inductive Unfit (before : List Node) (m : Node) : Fault → Prop
  | stray : m.isElement = true → isFill m = false →
    Unfit before m (.misuse .invalidChild
      ("t-include only accepts t-fill children, found <" ++ m.tag ++ ['>']))
  | repeated : isFill m = true → slotName m ∈ fillNames before →
    Unfit before m (.misuse .duplicateSlotName (repeatedMessage .fill (slotName m)))

/-- The first of some children, behind others, that an inclusion may not have. -/
inductive FirstUnfit : (before children : List Node) → Node → Fault → Prop
  | here {before ns : List Node} {m : Node} {f : Fault} :
    Unfit before m f → FirstUnfit before (m :: ns) m f
  | later {before ns : List Node} {n m : Node} {f : Fault} : (∀ g, ¬ Unfit before n g) →
    FirstUnfit (before ++ [n]) ns m f → FirstUnfit before (n :: ns) m f

/-- An inclusion of the file at a path, with children that it may have. -/
structure Includes (n : Node) (t : Template) (fills : List (Text × Node)) (path : Text) : Prop where
  tag : Directive.ofTag? n.tag = some .inclusion
  path : ∃ base file, t.file = some base ∧ n.attributes.get? "file" = some file ∧
    path = Path.resolve base file
  fills : fillsOf t n = pure fills

end Node

/-! ### Visits -/

/-- Gives nothing for any nodes. -/
def Lexical.idle : Surroundings → Walk := fun _ _ _ _ => pure []

/-- Siblings to be rendered, and what they are rendered with. -/
structure Visit where
  around : Surroundings
  template : Template
  nodes : List Node
  scope : Scope

namespace Visit

/-- The nodes of a template, with the variables of a context. -/
def outermost (t : Template) (c : Context) : Visit := ⟨.outermost, t, t.nodes, .ofContext c⟩

/-- Other nodes in the same surroundings. -/
def inner (v : Visit) (ns : List Node) (scope : Scope) : Visit :=
  { v with nodes := ns, scope := scope }

/-- A node that is rendered in a visit, and whether it is taken, if it is a branch. -/
def Renders (v : Visit) (n : Node) (taken : Option Bool) : Prop :=
  ∃ decisions, CanGive (decideBranches v.template v.scope v.nodes) decisions ∧
    (n, taken) ∈ v.nodes.zip decisions

variable (loader : Loader)

/-- The visits that a node leads to, and the places between the node and them. -/
inductive Opens (v : Visit) (n : Node) (taken : Option Bool) : List Place → Visit → Prop
  /-- An element without a directive. -/
  | plain : Directive.ofTag? n.tag = none → isVoid n.tag = false →
    Opens v n taken [] (v.inner n.children v.scope)
  /-- A branch that is taken. -/
  | branch {d : Directive} : Directive.ofTag? n.tag = some d →
    d ∈ [.ifBranch, .elifBranch, .elseBranch] → taken = some true →
    Opens v n taken [] (v.inner n.children v.scope)
  /-- An item of a loop. -/
  | loop {scopes : List Scope} {scope : Scope} : Directive.ofTag? n.tag = some .loop →
    CanGive (loopScopes n v.scope) scopes → scope ∈ scopes →
    Opens v n taken [] (v.inner n.children scope)
  | binding {vars : Record Json} : Directive.ofTag? n.tag = some .binding →
    CanGive (Node.evaluateAll v.scope n.attributes) vars →
    Opens v n taken [] (v.inner n.children (v.scope.extend vars))
  /-- An item of a tree. -/
  | tree {on : Text} {b : TreeHead} {items : List Json} {item : Json} {id : Nat} :
    Directive.ofTag? n.tag = some .tree → n.attributes.get? "on" = some on →
    TreeHead.parse? on = some b → CanGive (v.scope.evaluate b.data) (.array items) →
    item ∈ items →
    Opens v n taken [] ⟨v.around.inTree ⟨v.template, n.children, b.item⟩, v.template, n.children,
      Scope.extend { v.scope with tree := some id } [(b.item, item)]⟩
  /-- An item one level further in the tree around. -/
  | children {f : Expansion} {items : List Json} {item : Json} :
    Directive.ofTag? n.tag = some .children → v.around.tree = some f →
    Node.itemField v.scope.context f.item ((n.attributes.get? "field").getD "children") =
      .array items → item ∈ items →
    Opens v n taken [] ⟨v.around, f.template, f.body, v.scope.extend [(f.item, item)]⟩
  /-- A fill of an inclusion. -/
  | fill {fills : List (Text × Node)} {path name : Text} {m : Node} :
    n.Includes v.template fills path → (name, m) ∈ fills →
    Opens v n taken [v.template.place m] (v.inner m.children v.scope)
  /-- The file that is included. -/
  | included {fills : List (Text × Node)} {path source : Text} {ns : List Node}
    {filled : Record Text} : n.Includes v.template fills path →
    readFile loader path = pure source → parseTemplate source = .ok ns →
    checkHoles ⟨some path, ns⟩ = pure () → filled.names = fills.map Prod.fst →
    Opens v n taken [] ⟨.included filled, ⟨some path, ns⟩, ns, v.scope.included filled⟩
  /-- A hole that there is no fill for. -/
  | hole : Directive.ofTag? n.tag = some .hole → v.around.fill? (slotName n) = none →
    Opens v n taken [] (v.inner n.children v.scope)
  | html : Directive.ofTag? n.tag = some .html →
    Opens v n taken [] (v.inner n.children { v.scope with raw := true })

/-- What an element does by itself: its rule, when the visits that it leads to give nothing. -/
def ownStep (v : Visit) (n : Node) (taken : Option Bool) : Render Text :=
  Lexical.renderElement ⟨loader, false, false⟩ Lexical.idle v.around v.template n v.scope
    (taken.getD false)

/-- What is raised in a visit, and the places up to the node that is at fault or that includes the
file at fault. -/
inductive Raises (v : Visit) : Fault → List Place → Prop
  /-- The condition of a branch, or a branch that goes on with no other. -/
  | condition {before after : List Node} {n : Node} {state : BranchState} {f : Fault} :
    v.nodes = before ++ n :: after → Decided v.scope before state → n.isElement = true →
    CanFail (decideElement v.scope state n) f → Raises v f [v.template.place n]
  | text {kind : Leaf} {raw : Text} {line : Nat} {taken : Option Bool} {f : Fault} :
    v.Renders (.leaf kind raw line) taken → kind ≠ .doctype → kind ≠ .instruction →
    CanFail (Node.renderText raw v.scope) f → Raises v f [v.template.place (.leaf kind raw line)]
  | element {n : Node} {taken : Option Bool} {f : Fault} :
    v.Renders n taken → n.isElement = true → CanFail (v.ownStep loader n taken) f →
    Raises v f [v.template.place n]
  /-- A child that an inclusion may not have. -/
  | child {n m : Node} {taken : Option Bool} {file : Text} {f : Fault} : v.Renders n taken →
    Directive.ofTag? n.tag = some .inclusion → n.attributes.get? "file" = some file →
    Node.FirstUnfit [] n.children m f → Raises v f [v.template.place m, v.template.place n]
  /-- A line of an included file that cannot be parsed. -/
  | line {n : Node} {taken : Option Bool} {fills : List (Text × Node)} {path source : Text}
    {err : ParseError} : v.Renders n taken → n.Includes v.template fills path →
    readFile loader path = pure source → parseTemplate source = .error err →
    Raises v (.malformed err) [err.place (some path) source, v.template.place n]
  /-- A hole of an included file that has the name of another one. -/
  | hole {n m : Node} {taken : Option Bool} {fills : List (Text × Node)} {path source : Text}
    {ns : List Node} : v.Renders n taken → n.Includes v.template fills path →
    readFile loader path = pure source → parseTemplate source = .ok ns →
    firstRepeated? [] ((Node.nodesAll ns).filter isHole) = some m →
    Raises v (.misuse .duplicateSlotName (repeatedMessage .hole (slotName m)))
      [Template.place ⟨some path, ns⟩ m, v.template.place n]

/-- The traces of a visit: a fault, and all places from where it is raised up to the visit. -/
inductive Traces : Visit → Fault → List Place → Prop
  | here {v : Visit} {f : Fault} {places : List Place} :
    v.Raises loader f places → Traces v f places
  | inside {v u : Visit} {n : Node} {taken : Option Bool} {f : Fault}
    {between places : List Place} : v.Renders n taken → v.Opens loader n taken between u →
    Traces u f places → Traces v f (places ++ between ++ [v.template.place n])

end Visit

end HtmlTemplate
