import Workflow.Block.Registry
import Workflow.Run.Dependency
import Workflow.Run.Scope

namespace Workflow

/-- What a run works with: the block types, and the tree in which blocks look up their fields. -/
structure Engine where
  registry : Registry
  tree : Tree

/-- The scope of a run together with the world it shares with all others. -/
structure Frame where
  scope : Scope := {}
  world : World := {}

/-- What resolving a component came to. -/
inductive Resolution where
  /-- The component has run, now or earlier in the same scope. -/
  | reached (record : Record)
  /-- No edge to the component was followed. -/
  | unreached
  /-- A component on the way set a return value, with which the run ends. -/
  | returned (value : Json)

/-- What resolving the dependencies of a component came to. -/
inductive Gathered where
  /-- All are resolved. `result` is the result of the last one that has run, and `fired` tells
  whether an edge from one of them was followed. -/
  | ready (result : Json) (fired : Bool)
  /-- One of them set a return value. -/
  | returned (value : Json)

/-- Resolves dependencies one after the other. -/
def gather (resolve : Node → Step Frame FlowError Resolution) :
    List (Node × String) → (result : Json) → (fired : Bool) → Step Frame FlowError Gathered
  | [], result, fired => Step.ok (.ready result fired)
  | (producer, label) :: rest, result, fired => do
    match ← resolve producer with
    | .unreached => gather resolve rest result fired
    | .returned value => Step.ok (.returned value)
    | .reached record =>
      match record.returned? with
      | some value => Step.ok (.returned value)
      | none => gather resolve rest record.result (fired || record.matches label)

namespace Engine

/-- Stores the record of a block that succeeded. -/
def recordOutput (node : Node) (env : Environment) (output : Output) :
    Step Frame FlowError Resolution := fun frame =>
  let record : Record :=
    { id := node.id, outcome? := output.outcome?, result := output.result,
      returned? := output.returned?, env }
  (.ok (.reached record), { frame with scope := frame.scope.insert record })

/-- Stores the record of a block that failed. The failure ends the run unless its outcome labels an
edge of the component. -/
def recordFailure (node : Node) (env : Environment) (failure : Failure) :
    Step Frame FlowError Resolution := fun frame =>
  let record : Record :=
    { id := node.id, outcome? := failure.outcome?,
      result := failure.result?.getD (.text failure.error.message), returned? := none, env }
  let frame := { frame with scope := frame.scope.insert record }
  if failure.outcome?.any node.handles then (.ok (.reached record), frame)
  else (.error (.block node.id failure.error), frame)

/-- Runs a block that is made already. -/
def runBlock (engine : Engine) (branches : Branches) (node : Node) (env : Environment)
    (block : Block) : Step Frame FlowError Resolution := fun frame =>
  let scope := frame.scope.start node.id
  let ctx : Context := { node, env, tree := engine.tree, branches }
  match block ctx (frame.world.note (.started node.id node.type)) with
  | (.ok output, world) => recordOutput node env output { scope, world }
  | (.error failure, world) => recordFailure node env failure { scope, world }
  | (.crashed report, world) => (.crashed report, { scope, world })
  | (.tooDeep, world) => (.tooDeep, { scope, world })

/-- Makes and runs the block of a component. -/
def execute (engine : Engine) (branches : Branches) (node : Node) (env : Environment) :
    Step Frame FlowError Resolution := do
  let block ← Step.ofExcept (engine.registry.create node)
  engine.runBlock branches node env block

/-- The environment of a component: the base with the result of the dependency that was resolved
last and the results of all components that ran before. -/
def nodeEnv (base : Environment) (result : Json) (scope : Scope) : Environment :=
  base.extend [("result", result), ("results", .object scope.results)]

/-- Runs a component whose dependencies are resolved, if one of its edges was followed or there are
none. -/
def executeReached (engine : Engine) (branches : Branches) (env : Environment) (node : Node)
    (independent : Bool) : Gathered → Step Frame FlowError Resolution
  | .returned value => Step.ok (.returned value)
  | .ready result fired => fun frame =>
    if independent || fired then
      engine.execute branches node (nodeEnv env result frame.scope) frame
    else (.ok .unreached, frame)

/-- Resolves a component: first those it depends on, then the component itself if an edge to it was
followed. One that has run in the scope is not run again. `depth` bounds the length of a chain of
dependencies; a component that depends on itself is met again before that. -/
def resolve (engine : Engine) (branches : Branches) (nodes : List Node) (env : Environment) :
    (depth : Nat) → Node → Step Frame FlowError Resolution
  | 0, _ => Step.giveUp
  | depth + 1, node => fun frame =>
    if !engine.registry.contains node.type then
      (.error (.graph (.unknownBlockType node.id node.type)), frame)
    else
      match frame.scope.get? node.id with
      | some record => (.ok (.reached record), frame)
      | none =>
        if node.id ∈ frame.scope.resolving then
          (.error (.graph (.cyclicDependency node.id)), frame)
        else
          let needed := dependencies node nodes
          let step := do
            let gathered ← gather (resolve engine branches nodes env depth) needed .null false
            engine.executeReached branches env node needed.isEmpty gathered
          let (ending, frame) := step { frame with scope := frame.scope.enter node.id }
          (ending, { frame with scope := frame.scope.leave node.id })

/-- Resolves a component. Each component in a chain of dependencies is new, so one step for the
target, one for each component of the run and one to notice a cycle are enough. -/
def runNode (engine : Engine) (branches : Branches) (nodes : List Node) (env : Environment)
    (node : Node) : Step Frame FlowError Resolution :=
  engine.resolve branches nodes env (nodes.length + 2) node

/-- Runs components one after the other until one of them has a return value. -/
def runEach (engine : Engine) (branches : Branches) (nodes : List Node) (env : Environment) :
    List Node → Step Frame FlowError (Option Json)
  | [] => Step.ok none
  | node :: rest => do
    match ← engine.runNode branches nodes env node with
    | .returned value => Step.ok (some value)
    | .unreached => runEach engine branches nodes env rest
    | .reached record =>
      match record.returned? with
      | some value => Step.ok (some value)
      | none => runEach engine branches nodes env rest

/-- Runs components by pulling the terminal ones. -/
def runNodes (engine : Engine) (branches : Branches) (nodes : List Node)
    (env : Environment) : Step Frame FlowError (Option Json) :=
  engine.runEach branches nodes env (terminals nodes)

end Engine

end Workflow
