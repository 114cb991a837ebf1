import Workflow.Run.Runner

namespace Workflow

/-- How many iterations of a pool may be in flight. Without a limit of its own, a runner takes as
many as the machine can run at a time. -/
def Config.poolSize (config : Config) (parallelism total : Nat) : Nat :=
  poolWorkers (config.workers?.getD parallelism) total

/-- One run of the branch that a pool repeats. -/
structure Iteration where
  index : Nat
  env : Environment

/-- What an iteration runs with. The others that are in flight may change the world between any two of
its blocks. What its blocks find then is part of how they behave, so each iteration has an engine
and nested runs of its own, and nothing is assumed of them. -/
structure Surroundings where
  engine : Engine
  branches : Branches
  world : World

/-- How an iteration ends: as running the components of the branch in a fresh scope does. A crash is
noticed when the iteration is joined. -/
def Iteration.ending (nodes : List Node) (surroundings : Nat → Surroundings)
    (iteration : Iteration) : Ending FlowError (Option Json) :=
  let own := surroundings iteration.index
  ((own.engine.runFresh own.branches nodes iteration.env).catchCrash .join own.world).1

/-- The iterations of a pool that are not started yet and those in flight, with the values stored so
far. -/
structure Pool where
  pending : List Iteration
  inFlight : List Iteration := []
  values : List Json

namespace Pool

def start (envs : List Environment) : Pool :=
  { pending := envs.mapIdx Iteration.mk, values := List.replicate envs.length .null }

/-- What a pool does next. -/
inductive Event where
  | spawned (index : Nat)
  | joined (index : Nat)
  | finished
  deriving DecidableEq, Repr

/-- Where a pool stands. -/
inductive Stage where
  | running (pool : Pool)
  | ended (result : Except FlowError (List Json))

/-- One step of the loop of a pool. Iterations are started in order while fewer of them are in
flight than there are workers. Any one in flight may be the next that is joined, and its value is
stored at its position; the first one that is joined with an error ends the pool. With none in
flight the loop is over as soon as no further one is started. -/
inductive Moves (workers : Nat) (run : Iteration → Ending FlowError (Option Json)) :
    Pool → Event → Stage → Prop where
  | spawn {iteration : Iteration} {pending inFlight : List Iteration} {values : List Json}
      (hfree : inFlight.length < workers) :
      Moves workers run ⟨iteration :: pending, inFlight, values⟩ (.spawned iteration.index)
        (.running ⟨pending, inFlight ++ [iteration], values⟩)
  | join {pending before after : List Iteration} {iteration : Iteration} {values : List Json}
      {value? : Option Json} (hrun : run iteration = .ok value?) :
      Moves workers run ⟨pending, before ++ iteration :: after, values⟩ (.joined iteration.index)
        (.running ⟨pending, before ++ after, values.set iteration.index (value?.getD .null)⟩)
  | fail {pending before after : List Iteration} {iteration : Iteration} {values : List Json}
      {e : FlowError} (hrun : run iteration = .error e) :
      Moves workers run ⟨pending, before ++ iteration :: after, values⟩ (.joined iteration.index)
        (.ended (.error e))
  | finish {pending : List Iteration} {values : List Json} (hidle : 0 < workers → pending = []) :
      Moves workers run ⟨pending, [], values⟩ .finished (.ended (.ok values))

/-- Where the loop stands after the events. `Engine.runPool` takes the iterations one after the
other, which is one of the orders. -/
inductive Reaches (workers : Nat) (run : Iteration → Ending FlowError (Option Json))
    (envs : List Environment) : List Event → Stage → Prop where
  | start : Reaches workers run envs [] (.running (start envs))
  | move {events : List Event} {pool : Pool} {event : Event} {stage : Stage}
      (hreaches : Reaches workers run envs events (.running pool))
      (hmoves : Moves workers run pool event stage) :
      Reaches workers run envs (events ++ [event]) stage

end Pool

/-- Where a pool of the runner stands after the events. Without environments nothing is looked up. -/
inductive Runner.Pools (runner : Runner) (parallelism : Nat) (surroundings : Nat → Surroundings)
    (source label : String) (envs : List Environment) : List Pool.Event → Pool.Stage → Prop where
  | empty (hempty : envs = []) :
      Pools runner parallelism surroundings source label envs [] (.ended (.ok []))
  | missing {e : GraphError} (hsome : envs ≠ [])
      (hbranch : runner.tree.branch source label = .error e) :
      Pools runner parallelism surroundings source label envs [] (.ended (.error (.graph e)))
  | loop {nodes : List Node} {events : List Pool.Event} {stage : Pool.Stage} (hsome : envs ≠ [])
      (hbranch : runner.tree.branch source label = .ok nodes)
      (hreaches : Pool.Reaches (runner.config.poolSize parallelism envs.length)
        (Iteration.ending nodes surroundings) envs events stage) :
      Pools runner parallelism surroundings source label envs events stage

end Workflow
