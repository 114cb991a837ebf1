import Mathlib.Data.List.ReduceOption
import Workflow.Proofs.Run.Call
import Workflow.Proofs.Run.Contained

namespace Workflow

/-- The value that a call ends with. -/
def Reply.returned? (reply : Reply) : Option Json :=
  match reply.ending with
  | .ok (.report report) => report.returned?
  | _ => none

/-- A call in a history, with the session before it, what it was answered, and the session after
it. -/
structure Performed where
  call : Call
  before : Session
  reply : Reply
  after : Session

namespace Runner

/-- Carries out calls one after the other. -/
def performAll (runner : Runner) : List Call → Session → List Performed × Session
  | [], session => ([], session)
  | call :: rest, session =>
    let (reply, between) := runner.perform call session
    let (performed, last) := performAll runner rest between
    (⟨call, session, reply, between⟩ :: performed, last)

end Runner

namespace Sink

end Sink

namespace Engine

variable (engine : Engine) (branches : Branches) (nodes : List Node) (env : Environment)
  (world : World)

end Engine

namespace Runner

variable {runner : Runner}

end Runner

end Workflow
