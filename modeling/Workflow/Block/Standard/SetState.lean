import Workflow.Block.Registry

namespace Workflow.SetState

def type : String := "workflows_setstate"

/-- The value to store: text, or JSON if the type of the value says so. -/
def readValue (ctx : Context) : Step World BlockError Json := do
  if (← ctx.field "valueType") = "JSON" then ctx.fieldJson "value"
  else return .text (← ctx.field "value")

/-- Stores the value and yields it. The text of the element is itself a template for the path. -/
def store (ctx : Context) : Step World BlockError Json := do
  let element ← ctx.requireField "element"
  let value ← readValue ctx
  ctx.setState element value
  return value

/-- Stores a value in the application state. -/
def block : Block := fun ctx => do
  return .success (← (store ctx).mapError Failure.ofError)

def description : Description :=
  let d : Description :=
    { name := "Set state", category := "Other"
      description := "Set the value for a state element." }
  let d := d.withField "element" { name := "State element", type := "Binding" }
  let d := d.withField "valueType"
    { name := "Value type", desc := "Either text or JSON.", default? := some "text"
      type := "Text" }
  let d := d.withField "value" { name := "Value", type := "Text", control? := some "Textarea" }
  d.withDefaultOuts

def blockType : BlockType := { create := fun _ => .ok block, description }

end Workflow.SetState
