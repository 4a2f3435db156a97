import HtmlTemplate.Render.Directive
import HtmlTemplate.Render.Scope

/-!
Slots: the holes of a template and the fills of an inclusion. A name may be used once in each;
a missing name counts as the empty one.
-/

namespace HtmlTemplate

def slotName (n : Node) : Text := (n.attributes.get? "name").getD []

def isHole (n : Node) : Bool := n.tag == Directive.hole.tag

def isFill (n : Node) : Bool := n.tag == Directive.fill.tag

/-- The first of some nodes whose slot name is among `seen` or one of an earlier node. -/
def firstRepeated? (seen : List Text) : List Node → Option Node
  | [] => none
  | n :: ns => if slotName n ∈ seen then some n else firstRepeated? (slotName n :: seen) ns

/-- What is said of a repeated slot of a directive. -/
def repeatedMessage (d : Directive) (name : Text) : Text :=
  if name = [] then "Duplicate default " ++ d.tag
  else "Duplicate " ++ d.tag ++ " name \"" ++ name ++ ['"']

/-- Fails if a template has two holes of one name. -/
def checkHoles (t : Template) : Render Unit :=
  match firstRepeated? [] ((Node.nodesAll t.nodes).filter isHole) with
  | none => pure ()
  | some n =>
    Render.within (t.place n)
      (Render.misuse .duplicateSlotName (repeatedMessage .hole (slotName n)))

/-- The fills of an inclusion, which may have no other elements inside, after those whose names
are `seen`. -/
def fillsFrom (t : Template) (seen : List Text) : List Node → Render (List (Text × Node))
  | [] => return []
  | n :: ns => do
    if !n.isElement then fillsFrom t seen ns
    else if !isFill n then
      Render.within (t.place n) (Render.misuse .invalidChild
        ("t-include only accepts t-fill children, found <" ++ n.tag ++ ['>']))
    else if slotName n ∈ seen then
      Render.within (t.place n)
        (Render.misuse .duplicateSlotName (repeatedMessage .fill (slotName n)))
    else return (slotName n, n) :: (← fillsFrom t (slotName n :: seen) ns)

def fillsOf (t : Template) (n : Node) : Render (List (Text × Node)) := fillsFrom t [] n.children

end HtmlTemplate
