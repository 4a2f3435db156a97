import HtmlTemplate.Files.Reading
import HtmlTemplate.Record
import HtmlTemplate.Text.Space

/-!
A tree of files, as the system finds its way in it: step by step from the working directory,
where each directory passed through must be there.
-/

namespace HtmlTemplate

/-- Files under the names that lead to them from the working directory. A directory is there if
a file lies below it. -/
structure Disk where
  files : List (List Text × Bytes)

namespace Disk

/-- What a path leads to: a directory, a file, or a free place in a directory. -/
inductive Found where
  | directory
  | file (names : List Text) (bytes : Bytes)
  | free (names : List Text)

def empty : Disk := ⟨[]⟩

def isDirectory (d : Disk) (names : List Text) : Bool :=
  names.isEmpty || d.files.any fun f => names.isPrefixOf f.1 && f.1 != names

/-- The longest name a file may have, in bytes. -/
def maxNameBytes : Nat := 255

/-- The longest path, in bytes. -/
def maxPathBytes : Nat := 4095

def isTooLong (name : Text) : Bool := maxNameBytes < (Utf8.encode name).length

/-- Whether a part of a path leads to no name. -/
def isDots (part : Text) : Bool := part = ['.'] || part = ['.', '.']

/-- What the parts of a path lead to from above the working directory, where nothing is known
but that there are directories. -/
def outside (parts : List Text) : Except OsError Found :=
  match parts.dropWhile isDots with
  | [] => .ok .directory
  | name :: _ => .error (if isTooLong name then .nameTooLong else .noSuchFile)

/-- Follows the parts of a path from the directory that `names` lead to. -/
def follow (d : Disk) (names : List Text) : List Text → Except OsError Found
  | [] => .ok .directory
  | part :: parts =>
    if part = ['.'] then follow d names parts
    else if part = ['.', '.'] then
      if names = [] then outside parts else follow d names.dropLast parts
    else if isTooLong part then .error .nameTooLong
    else
      let here := names ++ [part]
      match d.files.lookup here with
      | some bytes => if parts = [] then .ok (.file here bytes) else .error .notADirectory
      | none =>
        if d.isDirectory here then follow d here parts
        else if parts = [] then .ok (.free here)
        else .error .noSuchFile

/-- What lies between the slashes of a path. -/
def steps (path : Text) : List Text := (Text.splitAt (· == '/') path).filter (· ≠ [])

/-- The parts of a path. A slash at the end stands for the directory before it. -/
def parts (path : Text) : List Text :=
  steps path ++ if path.endsWith ['/'] then [['.']] else []

/-- The parts of a path to write to. A slash behind a name says that a directory is meant,
whether there is one or not: then only the way to the name is followed. -/
def targetParts (path : Text) : List Text :=
  if path.endsWith ['/'] && !(steps path).getLast?.all isDots then (steps path).dropLast ++ [['.']]
  else parts path

/-- What the parts of a path lead to, from the root or from the working directory. -/
def locate (d : Disk) (path : Text) (parts : List Text) : Except OsError Found :=
  if path = [] then .error .noSuchFile
  else if maxPathBytes < (Utf8.encode path).length then .error .nameTooLong
  else if path.startsWith ['/'] then outside parts
  else d.follow [] parts

def hasNul (path : Text) : Bool := path.any fun c => c.toNat == 0

def read (d : Disk) (path : Text) : Except IoError Bytes :=
  if hasNul path then .error .nulInName
  else
    match d.locate path (parts path) with
    | .ok (.file _ bytes) => .ok bytes
    | .ok .directory => .error (.os .isADirectory)
    | .ok (.free _) => .error (.os .noSuchFile)
    | .error e => .error (.os e)

/-- Puts a file in place of another, or at a free place. -/
def put (d : Disk) (names : List Text) (bytes : Bytes) : Disk :=
  ⟨d.files.filter (fun f => f.1 != names) ++ [(names, bytes)]⟩

def write (d : Disk) (path : Text) (bytes : Bytes) : Except IoError Disk :=
  if hasNul path then .error .nulInName
  else
    match d.locate path (targetParts path) with
    | .ok (.file names _) => .ok (d.put names bytes)
    | .ok (.free names) => .ok (d.put names bytes)
    | .ok .directory => .error (.os .isADirectory)
    | .error e => .error (.os e)

end Disk

end HtmlTemplate
