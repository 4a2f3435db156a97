import HtmlTemplate.Markup.Builder
import HtmlTemplate.Markup.NodeTable

/-!
Building the tree of a template in place. The table of nodes grows by one row at a time, and the
innermost open element is told of each node that is put inside it; the rules are the builder's.
-/

namespace HtmlTemplate

namespace NodeTable

def empty : NodeTable := ⟨[], []⟩

/-- Puts a number behind those right below a parent. -/
def addChild (t : NodeTable) (parent : Option Nat) (id : Nat) : NodeTable :=
  match parent with
  | some p => { t with rows := t.rows.modify p fun r => { r with children := r.children ++ [id] } }
  | none => { t with roots := t.roots ++ [id] }

/-- Marks an element as closed. -/
def close (t : NodeTable) (id : Nat) : NodeTable :=
  { t with rows := t.rows.modify id fun r => { r with node := r.node.close } }

/-- Adds a node below a parent, after all that is there; its number is the next free one. -/
def append (t : NodeTable) (parent : Option Nat) (n : Node) : NodeTable :=
  let grown := t.addChild parent t.rows.length
  { grown with rows := grown.rows ++ [⟨n, parent, (t.under parent).length, []⟩] }

end NodeTable

/-- A tree under construction: its nodes so far, the numbers of the open elements, innermost
first, and the placeholders still to be resolved. -/
structure Arena where
  table : NodeTable
  openIds : List Nat
  placeholders : Placeholders

namespace Arena

def ofPlaceholders (p : Placeholders) : Arena := ⟨.empty, [], p⟩

/-- Resolves the placeholders of a text. -/
def take (a : Arena) (t : Text) : Text × Arena :=
  let (decoded, p) := a.placeholders.take t
  (decoded, { a with placeholders := p })

/-- Adds a node inside the innermost open element. -/
def append (a : Arena) (n : Node) : Arena :=
  { a with table := a.table.append a.openIds.head? n }

/-- Adds an element and makes it the innermost open one. -/
def openElement (a : Arena) (head : Opening) : Arena :=
  { a.append (.element head false []) with openIds := a.table.rows.length :: a.openIds }

/-- Closes the innermost open element, if there is one. -/
def closeElement (a : Arena) : Arena :=
  match a.openIds with
  | [] => a
  | id :: ids => { a with table := a.table.close id, openIds := ids }

/-- Takes in a closing tag. It is refused if it has no name, before anything is changed. -/
def close (a : Arena) (e : Segment) : Except ParseError Unit × Arena :=
  let name := Builder.closingName e.raw
  if name = [] then (.error ⟨"Malformed closing tag", e.line, 1⟩, a)
  else
    let tag := Builder.resolveTag a.placeholders name
    let (_, a) := a.take e.raw
    (.ok (), if isVoid tag then a else a.closeElement)

/-- Takes in the next segment. -/
def push (a : Arena) (e : Segment) : Except ParseError Unit × Arena :=
  match e.kind with
  | .leaf k =>
    let (decoded, a) := a.take e.raw
    (.ok (), a.append (.leaf k decoded e.line))
  | .tag .closes => a.close e
  | .tag role =>
    let p := a.placeholders
    let (decoded, a) := a.take e.raw
    let selfClosing := role == .selfCloses
    let head := Builder.opening p e.raw decoded e.line selfClosing
    (.ok (), if selfClosing then a.append (.element head false []) else a.openElement head)

/-- Takes in segments one after the other, and goes on after one that is refused. -/
def pushEach (a : Arena) (es : List Segment) : Arena := es.foldl (fun a e => (a.push e).2) a

end Arena

end HtmlTemplate
