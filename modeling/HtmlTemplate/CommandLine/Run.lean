import HtmlTemplate.CommandLine.Arguments
import HtmlTemplate.Engine
import HtmlTemplate.Files.Disk
import HtmlTemplate.Json.Reader

/-!
What the command does. It is written for any world of files, so that it runs on the files of a
machine and on a `Disk` alike.
-/

namespace HtmlTemplate

/-- Access to files, and to a clock that counts milliseconds. -/
structure World (m : Type → Type) where
  read : Text → m (Except IoError Bytes)
  write : Text → Bytes → m (Except IoError Unit)
  clock : m Nat

/-- How a command ends: its exit code, and what it writes to its two outputs. -/
structure Ending where
  code : Nat
  output : Text
  errors : Text
  deriving DecidableEq

namespace Ending

def failure (message : Text) : Ending := ⟨1, [], "Error: " ++ message ++ ['\n']⟩

def note (message : Text) : Ending := ⟨0, [], message ++ ['\n']⟩

def wrongUsage : Ending := ⟨2, [], "Usage: thtml <render|check> [OPTIONS] <TEMPLATE>\n"⟩

def help : Ending := ⟨0, "Usage: thtml <render|check> [OPTIONS] <TEMPLATE>\n", []⟩

def version : Ending := ⟨0, "thtml 0.3.0\n", []⟩

def ofStop : Stop → Ending
  | .failed e => failure e.display
  | .awaits _ => failure "Files are read without end"
  | .tooDeep => failure "Templates lie too deep inside each other"

end Ending

namespace Command

variable {m : Type → Type} [Monad m]

/-- What is said of a file that is not text. -/
def ofTextError : IoError → IoError
  | .notUtf8 _ => .other "stream did not contain valid UTF-8"
  | e => e

/-- The text of a file, or how the command ends without it. -/
def readText (w : World m) (path : Text) : m (Except Ending Text) := do
  let r ← w.read path
  return match r.bind textOfBytes with
    | .ok t => .ok t
    | .error e =>
      .error (.failure ("cannot read " ++ path ++ ": " ++ (ofTextError e).message))

/-- The variables for a rendering: the object in a file, or none. -/
def readContext (w : World m) : Option Text → m (Except Ending Json)
  | none => return .ok (.object [])
  | some path => do
    match ← readText w path with
    | .error e => return .error e
    | .ok t =>
      return match Json.parse? Json.depthLimit t with
        | some (.object members) => .ok (.object members)
        | some _ => .error (.failure (path ++ ": context must be a JSON object"))
        | none => .error (.failure (path ++ ": invalid JSON"))

def readingOf : Except IoError Bytes → Reading
  | .ok bytes => .contents bytes
  | .error e => .failed e

/-- How often a rendering may be begun again to read more files. There is no such limit on the files
that the command reads; each time at least one is read that was not known, so it stands for the
number of files there are. -/
def roundLimit : Nat := 100000

/-- The output of a template, with the time that rendering it took. -/
def renderFile (w : World m) (template : Text) (context : Json) (cache debug : Bool) :
    m (Except Stop Text) := do
  let start ← w.clock
  let r : Request := ⟨.file template, context, ⟨cache, debug, none⟩⟩
  let read (path : Text) : m Reading := readingOf <$> w.read path
  let (result, _) ← (Engine.new Memo.defaultCapacity).bodyReading read r roundLimit []
  let stop ← w.clock
  return result.map (finishOutput (stop - start))

def deliver (w : World m) (html : Text) : Option Text → m Ending
  | none => return ⟨0, html, []⟩
  | some path => do
    match ← w.write path (Utf8.encode html) with
    | .ok () => return .note ("Rendered: " ++ path)
    | .error e => return .failure ("cannot write " ++ path ++ ": " ++ e.message)

/-- Carries out a command. -/
def run (w : World m) : Command → m Ending
  | render template context output cache debug => do
    match ← readContext w context with
    | .error e => return e
    | .ok c =>
      match ← renderFile w template c cache debug with
      | .error s => return .ofStop s
      | .ok html => deliver w html output
  | check template => do
    match ← readText w template with
    | .error e => return e
    | .ok source =>
      match ((Engine.new Memo.defaultCapacity).check source (some template)).1 with
      | .error s => return .ofStop s
      | .ok () => return .note ("OK: " ++ template)

end Command

/-- Carries out what the arguments ask for. -/
def Invocation.carryOut {m : Type → Type} [Monad m] (w : World m) : Invocation → m Ending
  | run c => c.run w
  | help => return .help
  | version => return .version
  | invalid => return .wrongUsage

/-- The world of a disk, where no time passes. -/
def Disk.world : World (StateM Disk) where
  read path := do return (← get).read path
  write path bytes := do
    match (← get).write path bytes with
    | .ok d =>
      set d
      return .ok ()
    | .error e => return .error e
  clock := return 0

end HtmlTemplate
