import HtmlTemplate.CommandLine.Run

/-!
The command on the files of the machine.
-/

namespace HtmlTemplate

/-- A refusal by its number, which may be given with a minus sign. -/
def OsError.ofNumber (number : UInt32) (details : String) : OsError :=
  match number.toInt32.toInt.natAbs with
  | 2 => .noSuchFile
  | 20 => .notADirectory
  | 21 => .isADirectory
  | 36 => .nameTooLong
  | n => .other n details

/-- What the system says when it refuses. -/
def OsError.ofSystem : IO.Error → OsError
  | .noFileOrDirectory .. => .noSuchFile
  | .inappropriateType _ number details | .permissionDenied _ number details
  | .resourceExhausted _ number details | .invalidArgument _ number details
  | .alreadyExists _ number details | .otherError number details
  | .resourceBusy number details | .hardwareFault number details =>
    .ofNumber number details
  | e => .other 5 e.toString

def attempt {α : Type} (x : IO α) : IO (Except IoError α) := do
  try return .ok (← x)
  catch e => return .error (.os (.ofSystem e))

def machine : World IO where
  read path := attempt do
    return (← IO.FS.readBinFile (String.ofList path)).toList
  write path bytes := attempt do
    IO.FS.writeBinFile (String.ofList path) ⟨bytes.toArray⟩
  clock := IO.monoMsNow

end HtmlTemplate

open HtmlTemplate in
def main (args : List String) : IO UInt32 := do
  let e ← (Invocation.ofArguments (args.map String.toList)).carryOut machine
  (← IO.getStdout).putStr (String.ofList e.output)
  (← IO.getStderr).putStr (String.ofList e.errors)
  return e.code.toUInt32
