import HtmlTemplate.Files.Reading
import HtmlTemplate.Record

/-!
Templates held in memory, under folded paths. All of a library is always read.
-/

namespace HtmlTemplate

/-- Contents of templates under their folded paths. -/
structure Library where
  files : Record Bytes

namespace Library

def empty : Library := ⟨[]⟩

/-- Puts a template in place of any other at the same path. -/
def put (l : Library) (path : Text) (bytes : Bytes) : Library :=
  ⟨l.files.set (Path.normalize path) bytes⟩

def read (l : Library) (path : Text) : Except IoError Bytes :=
  match l.files.get? (Path.normalize path) with
  | some bytes => .ok bytes
  | none => .error .noSuchTemplate

def readText (l : Library) (path : Text) : Except IoError Text := (l.read path).bind textOfBytes

def loader (l : Library) : Loader := fun path =>
  match l.read path with
  | .ok bytes => .contents bytes
  | .error e => .failed e

end Library

end HtmlTemplate
