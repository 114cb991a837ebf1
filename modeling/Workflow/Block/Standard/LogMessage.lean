import Workflow.Block.Registry

namespace Workflow.LogMessage

def type : String := "workflows_logmessage"

/-- Yields the message of the component. Its level is read first. The application log itself is not
part of a run's answer. -/
def block : Block := fun ctx => do
  let _level ← (ctx.field "type").mapError Failure.ofError
  let message ← (ctx.field "message").mapError Failure.ofError
  return .success (.text message)

def description : Description :=
  let d : Description :=
    { name := "Log message", category := "Other"
      description := "Adds a message to the application log." }
  let d := d.withField "type"
    { name := "Type", desc := "One of info, warning, error or debug.", default? := some "info"
      type := "Text" }
  let d := d.withField "message"
    { name := "Message", type := "Text", control? := some "Textarea" }
  d.withDefaultOuts

def blockType : BlockType := { create := fun _ => .ok block, description }

end Workflow.LogMessage
