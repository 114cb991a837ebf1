import Workflow.Block.Registry

namespace Workflow.ParseJson

def type : String := "workflows_parsejson"

/-- The value of the text. -/
def readValue (ctx : Context) : Step World BlockError Json := do
  let text ← ctx.field "plainText"
  match Json.parse text with
  | .ok value => return value
  | .error error => Step.error (.executionFailed ("JSON parse error: " ++ error.message))

/-- Yields the JSON value that the text of the component stands for. -/
def block : Block := fun ctx => do
  return .success (← (readValue ctx).mapError Failure.ofError)

def description : Description :=
  let d : Description :=
    { name := "Parse JSON", category := "Other", description := "Parses a JSON string." }
  let d := d.withField "plainText"
    { name := "Plain text", type := "Text", control? := some "Textarea" }
  d.withDefaultOuts

def blockType : BlockType := { create := fun _ => .ok block, description }

end Workflow.ParseJson
