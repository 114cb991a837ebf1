import Workflow.Block.Registry

namespace Workflow.ReturnValue

def type : String := "workflows_returnvalue"

/-- The text of the field. -/
def readText (ctx : Context) : Step World BlockError Json := do
  return .text (← ctx.field "value")

def readValue (ctx : Context) : Step World BlockError Json := fun world =>
  match ctx.fieldOr "value" true "null" world with
  | (.error (.evaluation _ _), world) => readText ctx world
  | ended => ended

/-- Ends the enclosing run with a value: the JSON that the field holds, or the text of the field if
it holds none. -/
def block : Block := fun ctx => do
  let value ← (readValue ctx).mapError Failure.ofError
  return { Output.success value with returned? := some value }

def description : Description :=
  let d : Description :=
    { name := "Return value", category := "Other"
      description := "Returns a value from a workflow or sub-workflow." }
  let d := d.withField "value"
    { name := "Value", desc := "The value to return.", type := "Text"
      control? := some "Textarea" }
  d.withDefaultOuts

def blockType : BlockType := { create := fun _ => .ok block, description }

end Workflow.ReturnValue
