import HtmlTemplate.Markup.Node
import HtmlTemplate.ParseError

/-!
Building the tree of a template from its segments. Open elements form a stack; a closing tag
closes the innermost one whatever its name, and is dropped if none is open or if it names an
element without content.
-/

namespace HtmlTemplate

/-- An element whose closing tag is still to come, with its elder siblings, newest first. -/
structure OpenElement where
  head : Opening
  before : List Node

/-- A tree under construction: the newest siblings inside the innermost open element, newest
first, the open elements, innermost first, and the placeholders still to be resolved. -/
structure Builder where
  siblings : List Node
  stack : List OpenElement
  placeholders : Placeholders

namespace Builder

def ofPlaceholders (p : Placeholders) : Builder := ⟨[], [], p⟩

/-- Adds a node inside the innermost open element. -/
def append (b : Builder) (n : Node) : Builder := { b with siblings := n :: b.siblings }

/-- Makes an element the innermost open one. -/
def openElement (b : Builder) (head : Opening) : Builder :=
  { b with siblings := [], stack := ⟨head, b.siblings⟩ :: b.stack }

/-- Closes the innermost open element, if there is one. -/
def closeElement (b : Builder) : Builder :=
  match b.stack with
  | [] => b
  | o :: stack =>
    { b with siblings := .element o.head true b.siblings.reverse :: o.before, stack := stack }

/-- A tag name as it is compared and printed. -/
def resolveTag (p : Placeholders) (escaped : Text) : Text := p.decode escaped.lower

/-- The name in a closing tag: all up to the bracket that ends it, without white space around. -/
def closingName (raw : Text) : Text :=
  Text.trim (((Text.after? ['<', '/'] raw).getD raw).takeWhile (· != '>'))

def opening (p : Placeholders) (raw decoded : Text) (line : Nat) (selfClosing : Bool) :
    Opening where
  tag := resolveTag p (Segment.writtenName raw)
  attributes := Attributes.ofTag p raw
  raw := decoded
  line := line
  selfClosing := selfClosing

/-- Takes in the next segment. Only a closing tag without a name is refused. -/
def push (b : Builder) (e : Segment) : Except ParseError Builder :=
  let (decoded, p) := b.placeholders.take e.raw
  let resolved := { b with placeholders := p }
  match e.kind with
  | .leaf k => .ok (resolved.append (.leaf k decoded e.line))
  | .tag .opens => .ok (resolved.openElement (opening b.placeholders e.raw decoded e.line false))
  | .tag .selfCloses =>
    .ok (resolved.append (.element (opening b.placeholders e.raw decoded e.line true) false []))
  | .tag .closes =>
    let name := closingName e.raw
    if name = [] then .error ⟨"Malformed closing tag", e.line, 1⟩
    else if isVoid (resolveTag b.placeholders name) then .ok resolved
    else .ok resolved.closeElement

/-- Ends all open elements without closing them; `inner` are the siblings inside the innermost. -/
def unwind : (inner : List Node) → List OpenElement → List Node
  | inner, [] => inner
  | inner, o :: stack => unwind (.element o.head false inner.reverse :: o.before) stack

/-- The trees built so far. -/
def forest (b : Builder) : List Node := (unwind b.siblings b.stack).reverse

def pushAll (b : Builder) (es : List Segment) : Except ParseError Builder := es.foldlM push b

/-- Takes in segments one after the other, and passes over those that are refused. -/
def pushEach (b : Builder) (es : List Segment) : Builder :=
  es.foldl (fun b e =>
    match b.push e with
    | .ok b => b
    | .error _ => b) b

end Builder

/-- The trees of a template. -/
def parseTemplate (source : Text) : Except ParseError (List Node) :=
  let s := Scanned.ofSource source
  ((Builder.ofPlaceholders s.placeholders).pushAll s.segments).map Builder.forest

end HtmlTemplate
