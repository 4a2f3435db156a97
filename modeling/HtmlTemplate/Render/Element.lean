import HtmlTemplate.Render.Branch
import HtmlTemplate.Render.Load
import HtmlTemplate.Render.Loop

/-!
Rendering nodes, one rule for each kind. The rules call `walk` for the nodes inside others, be
they children, the body of a tree or an included file.
-/

namespace HtmlTemplate.Node

variable (setup : Setup) (walk : Walk)

/-- Text, a comment or a section of raw data, with its expressions filled in. White space stays
as it is. -/
def renderText (raw : Text) (scope : Scope) : Render Text :=
  if Text.isBlank raw then pure raw else scope.fillIn raw

/-- What stands in place of a branch that is not taken. -/
def untaken : Text := if setup.debug then "<!-- FALSE -->" else []

def renderBranch (t : Template) (n : Node) (scope : Scope) (taken : Bool) : Render Text :=
  if taken then walk t n.children scope else pure (untaken setup)

/-- The children once for each scope. -/
def renderIn (t : Template) (body : List Node) (scopes : List Scope) : Render Text := do
  return (← Render.fanOut (fun scope => walk t body scope) scopes).flatten

def renderLoop (t : Template) (n : Node) (scope : Scope) : Render Text := do
  renderIn walk t n.children (← loopScopes n scope)

/-- The variables that the attributes of a binding define, in order. -/
def evaluateAll (scope : Scope) : List (Text × Text) → Render (Record Json)
  | [] => return []
  | (name, source) :: rest => do
    let v ← scope.evaluate source
    return (name, v) :: (← evaluateAll scope rest)

def renderBinding (t : Template) (n : Node) (scope : Scope) : Render Text := do
  if n.attributes = [] then
    Render.misuse .missingAttribute "Must specify at least one attribute for t-with"
  else
    let vars ← evaluateAll scope n.attributes
    walk t n.children (scope.extend vars)

def strayChildren {α : Type} : Render α :=
  Render.misuse .structuralOrder "t-children must be used inside t-tree"

/-- The tree expansion under way with a number. -/
def expansionOf (id : Nat) : Render Expansion := do
  match ← Render.onTrees fun trees => (trees.get? id, trees) with
  | some f => return f
  | none => strayChildren

/-- The body of a tree once for each item. -/
def renderItems (id : Nat) (items : List Json) (scope : Scope) : Render Text := do
  let f ← expansionOf id
  renderIn walk f.template f.body (items.map fun v => scope.extend [(f.item, v)])

def readBinding (on : Text) : Render TreeHead :=
  match TreeHead.parse? on with
  | some b => pure b
  | none =>
    Render.misuse .invalidExpression ("Invalid expression for t-tree: \"" ++ on ++
      "\", expected \"<data> as <name>\"")

def renderTree (t : Template) (n : Node) (scope : Scope) : Render Text := do
  let b ← readBinding (← demand "on" n)
  match ← scope.evaluate b.data with
  | .array items =>
    Render.insideTree ⟨t, n.children, b.item⟩ fun id =>
      renderItems walk id items { scope with tree := some id }
  | _ => Render.misuse .typeMismatch ("Data must be an Array for t-tree: " ++ b.data)

/-- The value of a field of the item that a variable is bound to; `null` if there is none. -/
def itemField (c : Context) (item field : Text) : Json :=
  match c.get? item with
  | some (.object members) => (Record.get? members field).getD .null
  | _ => .null

/-- One level more of the tree around. -/
def renderChildren (n : Node) (scope : Scope) : Render Text := do
  match scope.tree with
  | none => strayChildren
  | some id =>
    let f ← expansionOf id
    let field := (n.attributes.get? "field").getD "children"
    match itemField scope.context f.item field with
    | .array items => renderItems walk id items scope
    | v =>
      if v.countsAsTrue then
        Render.misuse .typeMismatch ("t-children field \"" ++ field ++
          "\" must be an Array, got " ++ v.kindName)
      else return []

/-- The file that an inclusion names. -/
def includedPath (t : Template) (file : Text) : Render Text :=
  match t.file with
  | some base => pure (Path.resolve base file)
  | none => Render.fail (.unreadable file .noBase)

/-- The contents of fills under their names, rendered where the inclusion stands. -/
def renderFills (t : Template) (fills : List (Text × Node)) (scope : Scope) :
    Render (Record Text) := do
  let parts ← Render.fanOut
    (fun (_, n) => Render.within (t.place n) (walk t n.children scope)) fills
  return (fills.map Prod.fst).zip parts

def renderInclusion (t : Template) (n : Node) (scope : Scope) : Render Text := do
  let file ← demand "file" n
  let fills ← fillsOf t n
  let path ← includedPath t file
  let (filled, source) ← Render.both (renderFills walk t fills scope) (readFile setup.loader path)
  let u ← loadTemplate setup.cache (some path) source
  walk u u.nodes (scope.included filled)

def renderHole (t : Template) (n : Node) (scope : Scope) : Render Text :=
  match scope.fills.bind fun fills => fills.get? (slotName n) with
  | some content => pure content
  | none => walk t n.children scope

/-- An attribute with the expressions of its value filled in. -/
def renderAttribute (scope : Scope) (a : Text × Text) : Render Text := do
  let value ← scope.fillIn a.2
  return ' ' :: a.1 ++ '=' :: Attributes.quote value

def renderPlain (t : Template) (n : Node) (scope : Scope) : Render Text := do
  let attributes ← n.attributes.mapM (renderAttribute scope)
  let head := '<' :: n.tag ++ attributes.flatten ++ ['>']
  if isVoid n.tag then return head
  else
    let inner ← walk t n.children scope
    return head ++ inner ++ printClosing n.tag

/-- Marks what a directive renders, in debug output. -/
def mark (d : Directive) (body : Text) : Text :=
  if setup.debug && d.isMarked then
    let tag := d.tag.upperAscii
    "<!-- " ++ tag ++ " BEGIN -->\n" ++ body ++ "\n<!-- " ++ tag ++ " END -->"
  else body

/-- What a directive renders, without marks. -/
def renderDirective (t : Template) (n : Node) (scope : Scope) (taken : Bool) :
    Directive → Render Text
  | .ifBranch | .elifBranch | .elseBranch => renderBranch setup walk t n scope taken
  | .loop => renderLoop walk t n scope
  | .binding => renderBinding walk t n scope
  | .tree => renderTree walk t n scope
  | .children => renderChildren walk n scope
  | .inclusion => renderInclusion setup walk t n scope
  | .hole => renderHole walk t n scope
  | .fill => Render.misuse .structuralOrder "t-fill must be a direct child of t-include"
  | .html => walk t n.children { scope with raw := true }

def renderElement (t : Template) (n : Node) (scope : Scope) (taken : Bool) : Render Text :=
  match Directive.ofTag? n.tag with
  | some d => do return mark setup d (← renderDirective setup walk t n scope taken d)
  | none => renderPlain walk t n scope

/-- Renders a node; `taken` says of a branch whether it is the one to render. -/
def render (t : Template) (scope : Scope) (n : Node) (taken : Option Bool) : Render Text :=
  match n with
  | .leaf .doctype raw _ => pure raw
  | .leaf .instruction raw _ => pure raw
  | .leaf _ raw _ => Render.within (t.place n) (renderText raw scope)
  | .element .. => Render.within (t.place n) (renderElement setup walk t n scope (taken.getD false))

/-- Renders siblings in order, after all their branches are decided. -/
def renderSiblings : Walk := fun t ns scope => do
  let taken ← decideBranches t scope ns
  let parts ← Render.fanOut (fun (n, b) => render setup walk t scope n b) (ns.zip taken)
  return parts.flatten

end HtmlTemplate.Node

namespace HtmlTemplate

/-- Renders siblings with at most `depth` lists of nodes inside each other. -/
def walk (setup : Setup) : (depth : Nat) → Walk
  | 0, _, _, _ => throw .tooDeep
  | depth + 1, t, ns, scope => Node.renderSiblings setup (walk setup depth) t ns scope

end HtmlTemplate
