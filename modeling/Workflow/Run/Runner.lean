import Workflow.Log.Entry
import Workflow.Run.Branch

namespace Workflow

/-- How runs are carried out. -/
structure Config where
  /-- The greatest number of pool iterations in flight; none means as many as can run at a time. -/
  workers? : Option Nat := none
  logging : Bool := true
  deriving DecidableEq, Repr

/-- Limits the iterations in flight, to one at least. -/
def Config.withWorkers (config : Config) (workers : Nat) : Config :=
  { config with workers? := some (max workers 1) }

/-- Runs workflows of one tree. -/
structure Runner extends Engine where
  config : Config := {}
  /-- How much deeper than the tree has components nested runs may nest. Only edges that lead back
  let them nest deeper than the tree has components at all. -/
  nesting : Nat := 1000000

/-- What lives on between top-level runs. -/
structure Session where
  world : World := {}
  sink : Sink := .keep []

/-- The outcome of a top-level run. -/
structure Report where
  returned? : Option Json
  scope : Scope

namespace Runner

/-- Nested runs of this runner. -/
def nested (runner : Runner) : Branches :=
  runner.branches (runner.tree.nodes.length + runner.nesting)

/-- Writes a log entry, if entries are wanted. -/
def log (runner : Runner) (session : Session) (entry : Entry) : Session :=
  if runner.config.logging then { session with sink := session.sink.append entry } else session

/-- Runs components in a fresh scope and writes one log entry. -/
def run (runner : Runner) (nodes : List Node) (env : Environment) :
    Step Session FlowError Report := fun session =>
  match runner.runNodes runner.nested nodes env { world := session.world } with
  | (.ok returned?, frame) =>
    (.ok ⟨returned?, frame.scope⟩,
      runner.log { session with world := frame.world } (.ofSuccess frame.scope returned?))
  | (.error e, frame) =>
    (.error e, runner.log { session with world := frame.world } (.ofFailure frame.scope))
  | (.crashed report, frame) => (.crashed report, { session with world := frame.world })
  | (.tooDeep, frame) => (.tooDeep, { session with world := frame.world })

/-- Runs the components below `root`. -/
def runWorkflow (runner : Runner) (root : String) (env : Environment) :
    Step Session FlowError Report :=
  match runner.tree.get? root with
  | none => Step.error (.graph (.componentNotFound root))
  | some _ => runner.run (runner.tree.descendants root) env

/-- Runs the workflow with the given key. -/
def runKey (runner : Runner) (key : String) (env : Environment) :
    Step Session FlowError Report :=
  match runner.tree.findWorkflow? key with
  | none => Step.error (.graph (.workflowKeyNotFound key))
  | some workflow => runner.runWorkflow workflow.id env

/-- Runs the components behind an outcome of the component `source`. -/
def runBranch (runner : Runner) (source label : String) (env : Environment) :
    Step Session FlowError Report :=
  match runner.tree.branch source label with
  | .error e => Step.error (.graph e)
  | .ok nodes => runner.run nodes env

/-- Runs the components behind an outcome once for each environment. This writes no log entry. -/
def runPool (runner : Runner) (source label : String) (envs : List Environment) :
    Step Session FlowError (List Json) :=
  Step.within Session.world (fun session world => { session with world })
    (runner.toEngine.runPool runner.nested source label envs)

/-- Resolves one component in a scope that lives on. This writes no log entry. -/
def runNode (runner : Runner) (node : Node) (nodes : List Node) (env : Environment) :
    Step (Scope × Session) FlowError Resolution := fun (scope, session) =>
  let (ending, frame) :=
    runner.toEngine.runNode runner.nested nodes env node { scope, world := session.world }
  (ending, frame.scope, { session with world := frame.world })

end Runner

end Workflow
