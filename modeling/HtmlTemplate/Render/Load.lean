import HtmlTemplate.Render.Slot

/-!
Loading templates: reading their files, parsing them, and checking their holes.
-/

namespace HtmlTemplate

/-- Parses a template, through the parse cache if it is to be kept. -/
def parseKept (keep : Bool) (source : Text) : Render (Except ParseError (List Node)) :=
  ExceptT.mk fun s =>
    let s := { s with parsed := source :: s.parsed }
    if keep then
      let (result, cache) := s.cache.fetch source
      pure (.ok (result.map StoredTree.nodes), { s with cache := cache })
    else pure (.ok (parseTemplate source), s)

/-- The place of a parse error: the line it names. -/
def ParseError.place (file : Option Text) (source : Text) (e : ParseError) : Place :=
  Place.of file e.line (((Text.lines source)[e.line - 1]?).getD [])

/-- The template of a source text, if it can be parsed and its holes have different names. -/
def loadTemplate (keep : Bool) (file : Option Text) (source : Text) : Render Template := do
  match ← parseKept keep source with
  | .error e => Render.within (e.place file source) (Render.fail (.malformed e))
  | .ok nodes =>
    let t : Template := ⟨file, nodes⟩
    checkHoles t
    return t

/-- The text of a file. A file that was not read yet is awaited. -/
def readFile (loader : Loader) (path : Text) : Render Text :=
  match loader path with
  | .unread => throw (.awaits [path])
  | .failed e => Render.fail (.unreadable path e)
  | .contents bytes =>
    match textOfBytes bytes with
    | .ok t => pure t
    | .error e => Render.fail (.unreadable path e)

end HtmlTemplate
