import Workflow.Block.Registry

namespace Workflow.ForEach

def type : String := "workflows_foreach"

/-- The outcome whose branch is repeated. -/
def loopLabel : String := "loop"

/-- The environment of the run for one element. -/
def itemEnv (base : Environment) (id item : Json) : Environment :=
  base.extend [("itemId", id), ("item", item)]

/-- The environments for the elements of a list, of which the first has the position `first`. -/
def listEnvs (base : Environment) (first : Nat) : List Json → List Environment
  | [] => []
  | item :: rest => itemEnv base (.int first) item :: listEnvs base (first + 1) rest

/-- The environments for the members of an object. -/
def objectEnvs (base : Environment) (fields : Bindings Json) : List Environment :=
  fields.map fun field => itemEnv base (.text field.1) field.2

/-- The kind of a value, as users call it. -/
def kind : Json → String
  | .null => "null"
  | .bool _ => "boolean"
  | .int _ => "number"
  | .float _ => "number"
  | .text _ => "string"
  | .list _ => "list"
  | .object _ => "dictionary"

/-- Runs the branch for each element and gathers the return values. -/
def runItems (ctx : Context) : Step World BlockError Json := do
  match ← ctx.fieldJson "items" with
  | .list items =>
    let results ← ctx.runPool loopLabel (listEnvs ctx.env 0 items)
    return .list results
  | .object fields =>
    let results ← ctx.runPool loopLabel (objectEnvs ctx.env fields)
    return .object (Bindings.ofList ((Bindings.keys fields).zip results))
  | other => Step.error (.validation ("Items must be a list or dictionary, got " ++ kind other))

/-- Runs the branch behind the outcome `loop` once for each element of a list or of an object. Each
run sees the element as `item` and its position or key as `itemId`; the result has the shape of the
elements. -/
def block : Block := fun ctx => do
  return .success (← (runItems ctx).mapError Failure.ofError)

def description : Description :=
  let d : Description :=
    { name := "For-each loop", category := "Logic"
      description := "Executes a workflow repeatedly, based on the items provided." }
  let d := d.withField "items"
    { name := "Items"
      desc := "The item value will be passed in the execution environment and will be available " ++
        "at @\x7bitem\x7d, its id at @\x7bitemId\x7d. You can use either a list or a dictionary."
      default? := some "[]"
      initial? := some "[\"France\", \"Poland\"]"
      type := "Object"
      control? := some "Textarea" }
  let d := d.withOut loopLabel
    ⟨"Loop", "Connect the branch that you'd like to loop. Whatever's plugged in here will be " ++
      "repeated once per item available.", .dynamic⟩
  d.withDefaultOuts

def blockType : BlockType := { create := fun _ => .ok block, description }

end Workflow.ForEach
