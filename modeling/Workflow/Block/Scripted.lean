import Workflow.Block.Registry

namespace Workflow.Scripted

/-- A text in the content, or the empty text. -/
def textOf (content : Bindings Json) (key : String) : String :=
  ((Bindings.find? content key).bind Json.asText?).getD ""

/-- A text in the content, if there is one. -/
def textOf? (content : Bindings Json) (key : String) : Option String :=
  (Bindings.find? content key).bind Json.asText?

/-- A value in the content, or `null`. -/
def valueOf (content : Bindings Json) (key : String) : Json :=
  (Bindings.find? content key).getD .null

/-- Whether a value in the content is `true`. -/
def isSet (content : Bindings Json) (key : String) : Bool :=
  match Bindings.find? content key with
  | some (.bool true) => true
  | _ => false

/-- The members of a value, if it is an object. -/
def fieldsOf (value : Json) : Bindings Json := value.asObject?.getD []

def outcome? (content : Bindings Json) : Option String :=
  match Bindings.find? content "outcome" with
  | none => some successLabel
  | some value => value.asText?

def returned? (content : Bindings Json) (result : Json) : Option Json :=
  if isSet content "return_result" then some result else Bindings.find? content "returns"

/-- A block error of the named kind. -/
def errorOf (kind field message : String) : BlockError :=
  if kind = "MissingField" then .missingField message
  else if kind = "Validation" then .validation message
  else if kind = "Evaluation" then .evaluation field message
  else if kind = "State" then .state message
  else .executionFailed message

def failure (content : Bindings Json) : Failure :=
  { error := errorOf (textOf content "kind") (textOf content "field") (textOf content "message")
    outcome? := textOf? content "on_error"
    result? := Bindings.find? content "value" }

/-- The path of the block with some facts about its environment. -/
def describePath (ctx : Context) : Json :=
  .list [
    .list (ctx.path.map fun level =>
      .object [("componentId", .text level.component), ("instanceNumber", .int level.number)]),
    .int ctx.env.size,
    .bool (ctx.env.contains "item")]

/-- Evaluates the field that the content names. -/
def readField (ctx : Context) (content : Bindings Json) : Step World BlockError Json := do
  let key := textOf content "field"
  match textOf content "call" with
  | "json" => ctx.fieldJson key
  | "or" => ctx.fieldOr key (isSet content "as_json") (textOf content "default")
  | "require" => return .text (← ctx.requireField key)
  | _ => return .text (← ctx.field key)

def poolEnvs (base : Environment) (content : Bindings Json) : List Environment :=
  match Bindings.find? content "envs" with
  | some (.list envs) => envs.map fun env => base.extend (fieldsOf env)
  | _ => []

/-- Carries out an action that may raise a block error. -/
def act (ctx : Context) (content : Bindings Json) : Step World BlockError Json := do
  match textOf content "do" with
  | "env" => return (ctx.env.get? (textOf content "name")).getD .null
  | "envall" => return ctx.env.toJson
  | "path" => return describePath ctx
  | "yield" => return (ctx.env.get? "item").getD .null
  | "branch" =>
    let env := ctx.env.extend (fieldsOf (valueOf content "bind"))
    return (← ctx.runBranch (textOf content "label") env).getD .null
  | "pool" => return .list (← ctx.runPool (textOf content "label") (poolEnvs ctx.env content))
  | "field" => readField ctx content
  | "set" =>
    let value := valueOf content "value"
    ctx.setState (textOf content "expr") value
    return value
  | "panic" => Step.crash "panicked"
  | _ => return valueOf content "value"

/-- What the block does is written in the content of its component, without templates. This makes
every way in which a block can behave available to a workflow without code. -/
def block : Block := fun ctx => do
  let content := ctx.node.content
  if textOf content "do" = "fail" then Step.error (failure content)
  else
    let result ← (act ctx content).mapError fun error =>
      { error, outcome? := textOf? content "on_error" }
    return { outcome? := outcome? content, result, returned? := returned? content result }

def blockType : BlockType := { create := fun _ => .ok block }

/-- A block type whose blocks cannot be made. -/
def uncreatable : BlockType :=
  { create := fun node => .error (.validation ("cannot create " ++ node.id)) }

end Workflow.Scripted
