import Workflow.Run.Resolve

namespace Workflow

/-- The components behind an outcome of the component `source`. -/
def Tree.branch (tree : Tree) (source label : String) : Except GraphError (List Node) :=
  match tree.get? source with
  | none => .error (.componentNotFound source)
  | some node =>
    (node.targets label).mapM fun target =>
      match tree.get? target with
      | some found => .ok found
      | none => .error (.danglingEdge source target)

/-- Runs the environments' iterations in order and lists their return values. The first failure ends
the pool; a crash counts as a failure. -/
def iterate (run : Environment → Step World FlowError (Option Json)) :
    List Environment → Step World FlowError (List Json)
  | [] => Step.ok []
  | env :: rest => do
    let value ← (run env).catchCrash .join
    let values ← iterate run rest
    return value.getD .null :: values

/-- How many iterations of a pool may be in flight: at least one, and no more than there are. -/
def poolWorkers (limit total : Nat) : Nat := max 1 (min limit total)

namespace Engine

/-- Runs components in a fresh scope. -/
def runFresh (engine : Engine) (branches : Branches) (nodes : List Node) (env : Environment) :
    Step World FlowError (Option Json) := fun world =>
  let (ending, frame) := engine.runNodes branches nodes env { world }
  (ending, frame.world)

/-- Runs the components behind an outcome, in a fresh scope. -/
def runBranch (engine : Engine) (branches : Branches) (source label : String)
    (env : Environment) : Step World FlowError (Option Json) :=
  match engine.tree.branch source label with
  | .error e => Step.error (.graph e)
  | .ok nodes => engine.runFresh branches nodes env

/-- Runs the components behind an outcome once for each environment. Without environments nothing is
looked up. -/
def runPool (engine : Engine) (branches : Branches) (source label : String) :
    List Environment → Step World FlowError (List Json)
  | [] => Step.ok []
  | envs =>
    match engine.tree.branch source label with
    | .error e => Step.error (.graph e)
    | .ok nodes => iterate (engine.runFresh branches nodes) envs

/-- Nested runs that may nest `depth` levels deep. A level is made when it is run. -/
def branches (engine : Engine) : (depth : Nat) → Branches
  | 0 => { run := fun _ _ _ => Step.giveUp, pool := fun _ _ _ => Step.giveUp }
  | depth + 1 =>
    { run := fun source label env world =>
        engine.runBranch (branches engine depth) source label env world
      pool := fun source label envs world =>
        engine.runPool (branches engine depth) source label envs world }

end Engine

end Workflow
