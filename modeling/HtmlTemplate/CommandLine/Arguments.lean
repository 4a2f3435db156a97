import HtmlTemplate.Text.Basic

/-!
The arguments of the command. Options may stand anywhere among the arguments of their
subcommand; each may be given once, and after two hyphens everything is a template.
-/

namespace HtmlTemplate

/-- What the command is to do. -/
inductive Command where
  | render (template : Text) (context output : Option Text) (cache debug : Bool)
  | check (template : Text)
  deriving DecidableEq

/-- What the arguments ask for. -/
inductive Invocation where
  | run (c : Command)
  | help
  | version
  | invalid
  deriving DecidableEq

namespace Arguments

inductive Subcommand where
  | render
  | check
  deriving DecidableEq

/-- Options that stand for themselves. -/
inductive Flag where
  | verbose
  | cache
  | debug
  deriving DecidableEq

/-- Options that name a file. -/
inductive Key where
  | context
  | output
  deriving DecidableEq

/-- What has been read of the arguments of a subcommand. -/
structure State where
  template : Option Text
  files : List (Key × Text)
  flags : List Flag

def State.initial : State := ⟨none, [], []⟩

/-- A reading that may end early, because help is asked for or something is wrong. -/
abbrev Read (α : Type) := Except Invocation α

def invalid {α : Type} : Read α := .error .invalid

def State.setFlag (s : State) (f : Flag) : Read State :=
  if f ∈ s.flags then invalid else .ok { s with flags := f :: s.flags }

def State.setFile (s : State) (k : Key) (path : Text) : Read State :=
  if path = [] ∨ (s.files.lookup k).isSome then invalid
  else .ok { s with files := (k, path) :: s.files }

def State.setTemplate (s : State) (path : Text) : Read State :=
  if path = [] ∨ s.template.isSome then invalid else .ok { s with template := some path }

/-- An option is a flag, a key for a file, or a question for help. -/
inductive OptionKind where
  | flag (f : Flag)
  | key (k : Key)
  | help

def ofLetter? : Subcommand → Char → Option OptionKind
  | _, 'v' => some (.flag .verbose)
  | _, 'h' => some .help
  | .render, 'c' => some (.key .context)
  | .render, 'o' => some (.key .output)
  | _, _ => none

def ofName? (sub : Subcommand) (name : Text) : Option OptionKind :=
  if name = ("verbose" : Text) then some (.flag .verbose)
  else if name = ("help" : Text) then some .help
  else if sub = .check then none
  else if name = ("context" : Text) then some (.key .context)
  else if name = ("output" : Text) then some (.key .output)
  else if name = ("cache" : Text) then some (.flag .cache)
  else if name = ("debug" : Text) then some (.flag .debug)
  else none

/-- Whether an argument is written as an option; a single hyphen is not. -/
def isOption (a : Text) : Bool := a.startsWith ['-'] && a != ['-']

/-- Reads letters after one hyphen. A key takes the rest of the argument as its file, without an
equals sign at its front; with no rest, it is left to take the next argument. -/
def readLetters (sub : Subcommand) (s : State) : Text → Read (State × Option Key)
  | [] => .ok (s, none)
  | c :: cs =>
    match ofLetter? sub c with
    | none => invalid
    | some .help => .error .help
    | some (.flag f) => do readLetters sub (← s.setFlag f) cs
    | some (.key k) =>
      if cs = [] then .ok (s, some k)
      else do return (← s.setFile k ((Text.after? ['='] cs).getD cs), none)

/-- Reads a name after two hyphens, with or without a file after an equals sign. -/
def readName (sub : Subcommand) (s : State) (t : Text) : Read (State × Option Key) :=
  match Text.cut? ['='] t with
  | some (name, path) =>
    match ofName? sub name with
    | some (.key k) => do return (← s.setFile k path, none)
    | _ => invalid
  | none =>
    match ofName? sub t with
    | some (.key k) => .ok (s, some k)
    | some (.flag f) => do return (← s.setFlag f, none)
    | some .help => .error .help
    | none => invalid

/-- Reads the arguments of a subcommand; `pending` is an option that waits for its file. -/
def readFrom (sub : Subcommand) (s : State) (pending : Option Key) : List Text → Read State
  | [] => if pending.isSome then invalid else .ok s
  | a :: as =>
    match pending with
    | some k =>
      if isOption a then invalid else do readFrom sub (← s.setFile k a) none as
    | none =>
      if a = ['-', '-'] then as.foldlM State.setTemplate s
      else if a.startsWith ['-', '-'] then do
        let (s, pending) ← readName sub s (a.drop 2)
        readFrom sub s pending as
      else if isOption a then do
        let (s, pending) ← readLetters sub s (a.drop 1)
        readFrom sub s pending as
      else do readFrom sub (← s.setTemplate a) none as

/-- The command that has been read, if it has its template. -/
def State.command (s : State) (sub : Subcommand) : Invocation :=
  match s.template, sub with
  | none, _ => .invalid
  | some t, .check => .run (.check t)
  | some t, .render =>
    .run (.render t (s.files.lookup .context) (s.files.lookup .output) (s.flags.contains .cache)
      (s.flags.contains .debug))

def readSubcommand (sub : Subcommand) (as : List Text) : Invocation :=
  match readFrom sub .initial none as with
  | .ok s => s.command sub
  | .error i => i

/-- The name of a subcommand, or of the help on them. -/
def isCommandName (a : Text) : Bool :=
  a = ("render" : Text) || a = ("check" : Text) || a = ("help" : Text)

/-- Reads letters after one hyphen before the subcommand. -/
def readTopLetters (verbose : Bool) : Text → Read Bool
  | [] => .ok verbose
  | c :: cs =>
    if c = 'v' then if verbose then invalid else readTopLetters true cs
    else if c = 'h' then .error .help
    else if c = 'V' then .error .version
    else invalid

/-- Reads all arguments; `verbose` holds once that option was given. -/
def readTop (verbose : Bool) : List Text → Invocation
  | [] => .invalid
  | a :: as =>
    if a = ("render" : Text) then readSubcommand .render as
    else if a = ("check" : Text) then readSubcommand .check as
    else if a = ("help" : Text) then
      match as with
      | [] => .help
      | [b] => if isCommandName b then .help else .invalid
      | _ => .invalid
    else if a = ("--verbose" : Text) then if verbose then .invalid else readTop true as
    else if a = ("--help" : Text) then .help
    else if a = ("--version" : Text) then .version
    else if a.startsWith ['-', '-'] || !isOption a then .invalid
    else
      match readTopLetters verbose (a.drop 1) with
      | .ok verbose => readTop verbose as
      | .error i => i

end Arguments

/-- What the arguments of the command ask for. -/
def Invocation.ofArguments (as : List Text) : Invocation := Arguments.readTop false as

end HtmlTemplate
