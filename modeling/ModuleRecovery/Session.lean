import ModuleRecovery.Engine

/-!
# Sessions

A session is an engine together with the present content of the model file.  The
file may change at any time; the engine sees the change when it is loaded again.
-/

namespace ModuleRecovery

/-- An engine and the content that the model file has now. -/
structure Session where
  engine : Engine
  file : FileContent

/-- What can happen in a session. -/
inductive Step where
  | ask (query : Query)
  | reload
  /-- The file is replaced or removed. -/
  | write (content : FileContent)

namespace Session

def ask (session : Session) (query : Query) :
    Session × Except EngineError Report :=
  let (engine, answer) := session.engine.ask query
  ({ session with engine }, answer)

/-- Loads the engine again; the answer is its health then.  If that fails, the
session stays as it is. -/
def reload (session : Session) : Session × Except EngineError Report :=
  match session.engine.reload session.file with
  | .ok engine => ({ session with engine }, .ok (.health engine.health))
  | .error error => (session, .error error)

/-- One step with its answer; a change of the file has none. -/
def step (session : Session) :
    Step → Session × Option (Except EngineError Report)
  | .ask query =>
    let (session, answer) := session.ask query
    (session, some answer)
  | .reload =>
    let (session, answer) := session.reload
    (session, some answer)
  | .write content => ({ session with file := content }, none)

def run (session : Session) :
    List Step → List (Option (Except EngineError Report))
  | [] => []
  | step :: steps =>
    let (session, answer) := session.step step
    answer :: session.run steps

end Session

end ModuleRecovery
