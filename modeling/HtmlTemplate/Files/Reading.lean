import HtmlTemplate.Files.Path
import HtmlTemplate.Text.Utf8

/-!
What reading a file can give, and why it can fail. A loader answers for every path; a path that
was never asked for may still be unread, which is no failure.
-/

namespace HtmlTemplate

/-- A refusal by the operating system, by its number. -/
inductive OsError where
  | noSuchFile
  | notADirectory
  | isADirectory
  | nameTooLong
  | other (code : Nat) (text : Text)
  deriving DecidableEq

namespace OsError

def code : OsError → Nat
  | noSuchFile => 2
  | notADirectory => 20
  | isADirectory => 21
  | nameTooLong => 36
  | other code _ => code

def text : OsError → Text
  | noSuchFile => "No such file or directory"
  | notADirectory => "Not a directory"
  | isADirectory => "Is a directory"
  | nameTooLong => "File name too long"
  | other _ text => text

def message (e : OsError) : Text := e.text ++ " (os error " ++ Text.numeral e.code ++ ")"

end OsError

/-- Why a file could not be read. `other` holds a message as it is. -/
inductive IoError where
  | noSuchTemplate
  | notUtf8 (e : Utf8.Error)
  | noBase
  | nulInName
  | os (e : OsError)
  | other (message : Text)
  deriving DecidableEq

namespace IoError

def message : IoError → Text
  | noSuchTemplate => "no such template"
  | notUtf8 e => e.message
  | noBase => "t-include needs the including template's filename"
  | nulInName => "file name contained an unexpected NUL byte"
  | os e => e.message
  | other message => message

/-- Whether the failure lies in what a file holds, and not in reaching it. -/
def isContent : IoError → Bool
  | notUtf8 _ => true
  | _ => false

end IoError

/-- What is known of a file. -/
inductive Reading where
  | contents (bytes : Bytes)
  | failed (e : IoError)
  | unread

/-- Where templates are read from. -/
abbrev Loader := Text → Reading

/-- Bytes taken as text. -/
def textOfBytes (bytes : Bytes) : Except IoError Text :=
  match Utf8.decode bytes with
  | .ok t => .ok t
  | .error e => .error (.notUtf8 e)

end HtmlTemplate
