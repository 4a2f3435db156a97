import HtmlTemplate.Markup.Attributes

/-!
The tree of a template, and its text. An element carries its opening tag; everything else is a
leaf with its text.
-/

namespace HtmlTemplate

/-- An opening tag: its name in lower case, its attributes, and the text and line it stands at. -/
structure Opening where
  tag : Text
  attributes : Attributes
  raw : Text
  line : Nat
  selfClosing : Bool
  deriving DecidableEq

/-- A node of a template. An element is closed once a closing tag has been met for it. -/
inductive Node where
  | leaf (kind : Leaf) (raw : Text) (line : Nat)
  | element (head : Opening) (closed : Bool) (children : List Node)

namespace Node

def isElement : Node → Bool
  | leaf .. => false
  | element .. => true

/-- The tag of an element; empty for a leaf. -/
def tag : Node → Text
  | leaf .. => []
  | element head _ _ => head.tag

def attributes : Node → Attributes
  | leaf .. => []
  | element head _ _ => head.attributes

/-- The text of a leaf, or of the opening tag of an element. -/
def raw : Node → Text
  | leaf _ raw _ => raw
  | element head _ _ => head.raw

def line : Node → Nat
  | leaf _ _ line => line
  | element head _ _ => head.line

def children : Node → List Node
  | leaf .. => []
  | element _ _ children => children

def closed : Node → Bool
  | leaf .. => false
  | element _ closed _ => closed

/-- The node with the mark that a closing tag has been met for it. -/
def close : Node → Node
  | leaf kind raw line => leaf kind raw line
  | element head _ children => element head true children

def selfClosing : Node → Bool
  | leaf .. => false
  | element head _ _ => head.selfClosing

/-- An opening tag with its attributes quoted. -/
def printOpening (tag : Text) (attributes : Attributes) : Text :=
  '<' :: tag ++ attributes.flatMap (fun (name, value) =>
    ' ' :: name ++ '=' :: Attributes.quote value)
    ++ ['>']

def printClosing (tag : Text) : Text := '<' :: '/' :: tag ++ ['>']

mutual

/-- The markup of a node and all below it. -/
def print : Node → Text
  | leaf _ raw _ => raw
  | element head _ children =>
    printOpening head.tag head.attributes ++
      if head.selfClosing && children.isEmpty then []
      else printAll children ++ printClosing head.tag

def printAll : List Node → Text
  | [] => []
  | n :: ns => print n ++ printAll ns

end

mutual

/-- The nodes of a tree: the node itself and all below it, in document order. -/
def nodes : Node → List Node
  | leaf kind raw line => [leaf kind raw line]
  | element head closed children => element head closed children :: nodesAll children

def nodesAll : List Node → List Node
  | [] => []
  | n :: ns => nodes n ++ nodesAll ns

end

end Node

end HtmlTemplate
