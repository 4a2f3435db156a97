import HtmlTemplate.Proofs.Render.Walk

/-!
Rendering by what stands around a node.

The renderer hands a number down to the elements inside a tree, and texts down to the holes of an
included file. Here both are found where they are written: a node is rendered in its surroundings,
which are the body that the innermost tree around it repeats, and the fills of the inclusion that
its file is rendered for. Fills belong to the file they are written in. Something may be done
before each node, to watch what it is rendered with.
-/

namespace HtmlTemplate

/-- What stands around a node: the expansion of the innermost tree, and the fills for its file. -/
structure Surroundings where
  tree : Option Expansion
  fills : Option (Record Text)

namespace Surroundings

def outermost : Surroundings := ⟨none, none⟩

/-- Inside a tree of the same file. -/
def inTree (e : Surroundings) (f : Expansion) : Surroundings := { e with tree := some f }

/-- In an included file. -/
def included (fills : Record Text) : Surroundings := ⟨none, some fills⟩

end Surroundings

/-- Something to be done before a node is rendered. -/
abbrev Watch := Surroundings → Template → Scope → Node → Render Unit

def unwatched : Watch := fun _ _ _ _ => pure ()

namespace Lexical

variable (setup : Setup) (watch : Watch) (walk : Surroundings → Walk)

/-- The body of a tree once for each item. -/
def renderItems (e : Surroundings) (f : Expansion) (items : List Json) (scope : Scope) :
    Render Text :=
  Node.renderIn (walk e) f.template f.body (items.map fun v => scope.extend [(f.item, v)])

/-- A tree. Its number is not looked at again. -/
def renderTree (e : Surroundings) (t : Template) (n : Node) (scope : Scope) : Render Text := do
  let b ← Node.readBinding (← demand "on" n)
  match ← scope.evaluate b.data with
  | .array items =>
    let f : Expansion := ⟨t, n.children, b.item⟩
    Render.insideTree f fun id =>
      renderItems walk (e.inTree f) f items { scope with tree := some id }
  | _ => Render.misuse .typeMismatch ("Data must be an Array for t-tree: " ++ b.data)

/-- One level more of the tree around. It is an error if there is none. -/
def renderChildren (e : Surroundings) (n : Node) (scope : Scope) : Render Text :=
  match e.tree with
  | none => Node.strayChildren
  | some f =>
    let field := (n.attributes.get? "field").getD "children"
    match Node.itemField scope.context f.item field with
    | .array items => renderItems walk e f items scope
    | v =>
      if v.countsAsTrue then
        Render.misuse .typeMismatch ("t-children field \"" ++ field ++
          "\" must be an Array, got " ++ v.kindName)
      else pure []

/-- An inclusion: its fills are rendered where it stands, and the file with their texts. -/
def renderInclusion (e : Surroundings) (t : Template) (n : Node) (scope : Scope) :
    Render Text := do
  let file ← demand "file" n
  let fills ← fillsOf t n
  let path ← Node.includedPath t file
  let (filled, source) ←
    Render.both (Node.renderFills (walk e) t fills scope) (readFile setup.loader path)
  let u ← loadTemplate setup.cache (some path) source
  walk (.included filled) u u.nodes (scope.included filled)

/-- A hole: the text of the fill of its name, or else its own children. -/
def renderHole (e : Surroundings) (t : Template) (n : Node) (scope : Scope) : Render Text :=
  match e.fills.bind fun fills => fills.get? (slotName n) with
  | some content => pure content
  | none => walk e t n.children scope

def renderDirective (e : Surroundings) (t : Template) (n : Node) (scope : Scope) (taken : Bool) :
    Directive → Render Text
  | .tree => renderTree walk e t n scope
  | .children => renderChildren walk e n scope
  | .inclusion => renderInclusion setup walk e t n scope
  | .hole => renderHole walk e t n scope
  | d => Node.renderDirective setup (walk e) t n scope taken d

def renderElement (e : Surroundings) (t : Template) (n : Node) (scope : Scope) (taken : Bool) :
    Render Text :=
  match Directive.ofTag? n.tag with
  | some d => Node.mark setup d <$> renderDirective setup walk e t n scope taken d
  | none => Node.renderPlain (walk e) t n scope

def renderSiblings (e : Surroundings) : Walk := fun t ns scope =>
  Node.siblingsBy t scope (watch e t scope) (fun n => renderElement setup walk e t n scope) ns

end Lexical

/-- Renders siblings in their surroundings, with at most `depth` lists of nodes inside each
other. -/
def Lexical.walk (setup : Setup) (watch : Watch) : (depth : Nat) → Surroundings → Walk
  | 0, _, _, _, _ => throw .tooDeep
  | depth + 1, e, t, ns, scope => renderSiblings setup watch (walk setup watch depth) e t ns scope

end HtmlTemplate
