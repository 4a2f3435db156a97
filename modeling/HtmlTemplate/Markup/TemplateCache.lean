import HtmlTemplate.Digest
import HtmlTemplate.Markup.Builder

/-!
Remembering parsed templates under the digests of their texts. Every tree that is stored has a
serial number, by which it can be told from an equal tree parsed at another time.
-/

namespace HtmlTemplate

/-- A parsed template, and how many others were stored before it. -/
structure StoredTree where
  serial : Nat
  nodes : List Node

/-- Parsed templates under their digests, and how many were ever stored. -/
structure TemplateCache where
  entries : Record StoredTree
  stored : Nat

namespace TemplateCache

def empty : TemplateCache := ⟨[], 0⟩

def size (c : TemplateCache) : Nat := c.entries.length

def clear (c : TemplateCache) : TemplateCache := { c with entries := [] }

/-- The tree of a template, parsed and stored if it is not there yet. A template that cannot be
parsed is not stored. -/
def fetch (c : TemplateCache) (source : Text) : Except ParseError StoredTree × TemplateCache :=
  let digest := Digest.ofText source
  match c.entries.get? digest with
  | some tree => (.ok tree, c)
  | none =>
    match parseTemplate source with
    | .error e => (.error e, c)
    | .ok nodes =>
      let tree := ⟨c.stored, nodes⟩
      (.ok tree, ⟨c.entries.set digest tree, c.stored + 1⟩)

end TemplateCache

end HtmlTemplate
