import HtmlTemplate.Render.Options
import HtmlTemplate.Render.Element

/-!
Rendering whole templates. An engine keeps the expressions and the templates it has read for the
renderings that follow.
-/

namespace HtmlTemplate

/-- What is rendered: a text, or a file. -/
inductive TemplateSource where
  | text (t : Text)
  | file (path : Text)

structure Engine where
  memo : Memo
  cache : TemplateCache

/-- A rendering that is asked for. -/
structure Request where
  source : TemplateSource
  context : Json
  options : Options

/-- How deep lists of nodes may lie inside each other. The template engine that is modelled sets no
such limit: it recurses for as long as its native stack lasts, and this number stands for that
stack. Stopping as too deep stands for the end of a process that has used its stack up. -/
def depthLimit : Nat := 10000

/-- The text to render, and the file it is from: the one the options name, or else the source. -/
def Request.load (r : Request) (loader : Loader) : Render (Text × Option Text) :=
  match r.source with
  | .text t => pure (t, r.options.filename)
  | .file path => do
    let t ← readFile loader path
    return (t, some (r.options.filename.getD path))

/-- The output of a rendering before the last replacements in it. -/
def Request.body (r : Request) (loader : Loader) (depth : Nat) : Render Text := do
  match Context.ofJson? r.context with
  | none => Render.misuse .typeMismatch "Render context must be an object"
  | some c =>
    let (source, file) ← r.load loader
    let t ← loadTemplate r.options.cache file source
    walk ⟨loader, r.options.cache, r.options.debug⟩ depth t t.nodes (.ofContext c)

/-- The output with the milliseconds of rendering in it, and with literal braces restored. -/
def finishOutput (elapsed : Nat) (t : Text) : Text :=
  restoreBraces (Text.replaceFirst timestampMark (Text.numeral elapsed) t)

namespace Engine

def new (capacity : Nat) : Engine := ⟨.empty capacity, .empty⟩

/-- What a rendering begins with. -/
def store (e : Engine) : Store := ⟨e.memo, e.cache, .empty, []⟩

/-- Runs a rendering on what the engine keeps. -/
def run {α : Type} (e : Engine) (x : Render α) : Except Stop α × Engine :=
  let (result, s) := x.run.run e.store
  (result, ⟨s.memo, s.cache⟩)

/-- Renders a template; `elapsed` is the time it takes, in milliseconds. -/
def render (e : Engine) (loader : Loader) (elapsed : Nat) (r : Request) :
    Except Stop Text × Engine :=
  e.run (finishOutput elapsed <$> r.body loader depthLimit)

/-- Loads a template without rendering it. Nothing is kept. -/
def check (e : Engine) (source : Text) (file : Option Text) : Except Stop Unit × Engine :=
  e.run (do let _ ← loadTemplate false file source)

/-- Evaluates an expression. -/
def evaluate (e : Engine) (c : Context) (source : Text) : Except EvalError Json × Engine :=
  let (result, memo) := (HtmlTemplate.evaluate c source).run.run e.memo
  (result, { e with memo := memo })

/-- Forgets all parsed templates. -/
def clear (e : Engine) : Engine := { e with cache := e.cache.clear }

end Engine

/-- Files as far as they are read; all others are unread. -/
def knownLoader (known : Record Reading) : Loader := fun path => (known.get? path).getD .unread

/-- Reads files that are not known yet. -/
def readAll {m : Type → Type} [Monad m] (read : Text → m Reading) (known : Record Reading) :
    List Text → m (Record Reading)
  | [] => pure known
  | path :: paths => do
    if known.has path then readAll read known paths
    else
      let r ← read path
      readAll read (known.set path r) paths

/-- The output of a rendering, before the last replacements, from files that are read when they
are awaited. A rendering that awaits files is begun again once they are read; this happens at
most `rounds` times. -/
def Engine.bodyReading {m : Type → Type} [Monad m] (e : Engine) (read : Text → m Reading)
    (r : Request) : (rounds : Nat) → Record Reading → m (Except Stop Text × Engine)
  | 0, known => pure (e.run (r.body (knownLoader known) depthLimit))
  | rounds + 1, known =>
    match e.run (r.body (knownLoader known) depthLimit) with
    | (.error (.awaits paths), _) => do
      let known ← readAll read known paths
      bodyReading e read r rounds known
    | done => pure done

end HtmlTemplate
