import Workflow.Field
import Workflow.Step
import Workflow.World

namespace Workflow

/-- The conventional outcomes. -/
def successLabel : String := "success"

/-- The conventional outcome of a failure. -/
def errorLabel : String := "error"

/-- What a block produced. -/
structure Output where
  /-- The outcome, which selects the edges to follow. Without one no edge is followed. -/
  outcome? : Option String := none
  /-- The value that dependents see. -/
  result : Json := .null
  /-- The value with which the enclosing run ends. -/
  returned? : Option Json := none
  deriving Inhabited

/-- A successful output. -/
def Output.success (result : Json) : Output := { outcome? := some successLabel, result }

/-- Why a block failed. The failure is contained if its outcome labels an edge of the component. -/
structure Failure where
  error : BlockError
  outcome? : Option String := none
  result? : Option Json := none

/-- A failure with the conventional outcome. -/
def Failure.ofError (error : BlockError) : Failure := { error, outcome? := some errorLabel }

/-- Nested runs. `run` runs the components behind an outcome of a component; `pool` does so once for
each environment. -/
structure Branches where
  run : (source label : String) → Environment → Step World FlowError (Option Json)
  pool : (source label : String) → List Environment → Step World FlowError (List Json)

/-- What a block has at hand. -/
structure Context where
  node : Node
  env : Environment
  tree : Tree
  branches : Branches

/-- What a component does when it runs. A block reads the fields of its component, may write
application state, and may run the components behind one of its outcomes as a run of their own. -/
abbrev Block := Context → Step World Failure Output

namespace Context

/-- The path under which the block looks up its fields. -/
def path (ctx : Context) : List Instance := Instance.pathOf ctx.node.id

/-- Evaluates a field of the component. -/
def fieldOr (ctx : Context) (key : String) (asJson : Bool) (default : String) :
    Step World BlockError Json := fun world =>
  Step.ofExcept (Field.evaluate ctx.tree world.state ctx.env ctx.path key asJson default) world

/-- Evaluates a field as text; a missing one is empty. -/
def field (ctx : Context) (key : String) : Step World BlockError String := do
  return Json.plain (← ctx.fieldOr key false "")

/-- Evaluates a field as JSON; a missing one is the empty object. -/
def fieldJson (ctx : Context) (key : String) : Step World BlockError Json :=
  ctx.fieldOr key true "{}"

/-- Evaluates a field as text that must not be empty. -/
def requireField (ctx : Context) (key : String) : Step World BlockError String := do
  let text ← ctx.field key
  if text.isEmpty then Step.error (.missingField key) else return text

/-- Stores a value at the path that a template yields. -/
def setState (ctx : Context) (expression : String) (value : Json) : Step World BlockError Unit :=
  fun world =>
    match world.state.target ctx.env expression with
    | .ok names => (.ok (), world.write ctx.node.id names value)
    | .error e => (.error e, world)

/-- Runs the components behind an outcome in a scope of their own. -/
def runBranch (ctx : Context) (label : String) (env : Environment) :
    Step World BlockError (Option Json) :=
  (ctx.branches.run ctx.node.id label env).mapError BlockError.branch

/-- Runs the components behind an outcome once for each environment. -/
def runPool (ctx : Context) (label : String) (envs : List Environment) :
    Step World BlockError (List Json) :=
  (ctx.branches.pool ctx.node.id label envs).mapError BlockError.branch

end Context

end Workflow
