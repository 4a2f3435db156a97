import HtmlTemplate.Engine
import HtmlTemplate.Files.Library

/-!
One engine used for many things in turn, over templates in memory.
-/

namespace HtmlTemplate

/-- Something to be done with an engine; `elapsed` is the time that a rendering takes. -/
inductive Job where
  | put (path : Text) (bytes : Bytes)
  | render (elapsed : Nat) (r : Request)
  | check (source : Text) (file : Option Text)
  | clear
  | evaluate (c : Context) (source : Text)

/-- What a job gives. -/
inductive Answer where
  | done
  | output (result : Except Stop Text)
  | checked (result : Except Stop Unit)
  | value (result : Except EvalError Json)

structure Session where
  engine : Engine
  library : Library

namespace Session

def new (capacity : Nat) (library : Library) : Session := ⟨.new capacity, library⟩

def step (s : Session) : Job → Answer × Session
  | .put path bytes => (.done, { s with library := s.library.put path bytes })
  | .render elapsed r =>
    let (result, e) := s.engine.render s.library.loader elapsed r
    (.output result, { s with engine := e })
  | .check source file =>
    let (result, e) := s.engine.check source file
    (.checked result, { s with engine := e })
  | .clear => (.done, { s with engine := s.engine.clear })
  | .evaluate c source =>
    let (result, e) := s.engine.evaluate c source
    (.value result, { s with engine := e })

/-- The session after some jobs. -/
def after (s : Session) (jobs : List Job) : Session := jobs.foldl (fun s x => (s.step x).2) s

end Session

end HtmlTemplate
