import Workflow.Proofs.Step
import Workflow.Run.Resolve

namespace Workflow

/-- The record of a block that succeeded. -/
def Output.record (output : Output) (node : Node) (env : Environment) : Record :=
  { id := node.id, outcome? := output.outcome?, result := output.result,
    returned? := output.returned?, env }

/-- The record of a block that failed, contained or not. -/
def Failure.record (failure : Failure) (node : Node) (env : Environment) : Record :=
  { id := node.id, outcome? := failure.outcome?,
    result := failure.result?.getD (.text failure.error.message), returned? := none, env }

/-- Notes that a component is being resolved. -/
def Frame.enter (frame : Frame) (id : String) : Frame :=
  { frame with scope := frame.scope.enter id }

/-- Notes that a component is no longer being resolved. -/
def Frame.leave (frame : Frame) (id : String) : Frame :=
  { frame with scope := frame.scope.leave id }

namespace Engine

/-- What the block of a component has at hand. -/
def context (engine : Engine) (branches : Branches) (node : Node) (env : Environment) : Context :=
  { node, env, tree := engine.tree, branches }

/-- Making and running the block of a component in its environment. A block that could not be made
leaves no trace; one that was started leaves a record if it succeeds or fails. -/
inductive Executes (engine : Engine) (branches : Branches) (node : Node) (env : Environment)
    (frame : Frame) : Ending FlowError Resolution → Frame → Prop where
  | uncreated {e : FlowError} (hcreate : engine.registry.create node = .error e) :
      Executes engine branches node env frame (.error e) frame
  | succeeded {block : Block} {output : Output} {world : World}
      (hcreate : engine.registry.create node = .ok block)
      (hblock : block (engine.context branches node env)
        (frame.world.note (.started node.id node.type)) = (.ok output, world)) :
      Executes engine branches node env frame (.ok (.reached (output.record node env)))
        { scope := (frame.scope.start node.id).insert (output.record node env), world }
  | contained {block : Block} {failure : Failure} {world : World}
      (hcreate : engine.registry.create node = .ok block)
      (hblock : block (engine.context branches node env)
        (frame.world.note (.started node.id node.type)) = (.error failure, world))
      (hhandled : failure.outcome?.any node.handles = true) :
      Executes engine branches node env frame (.ok (.reached (failure.record node env)))
        { scope := (frame.scope.start node.id).insert (failure.record node env), world }
  | failed {block : Block} {failure : Failure} {world : World}
      (hcreate : engine.registry.create node = .ok block)
      (hblock : block (engine.context branches node env)
        (frame.world.note (.started node.id node.type)) = (.error failure, world))
      (hhandled : failure.outcome?.any node.handles = false) :
      Executes engine branches node env frame (.error (.block node.id failure.error))
        { scope := (frame.scope.start node.id).insert (failure.record node env), world }
  | crashed {block : Block} {report : String} {world : World}
      (hcreate : engine.registry.create node = .ok block)
      (hblock : block (engine.context branches node env)
        (frame.world.note (.started node.id node.type)) = (.crashed report, world)) :
      Executes engine branches node env frame (.crashed report)
        { scope := frame.scope.start node.id, world }
  | tooDeep {block : Block} {world : World}
      (hcreate : engine.registry.create node = .ok block)
      (hblock : block (engine.context branches node env)
        (frame.world.note (.started node.id node.type)) = (.tooDeep, world)) :
      Executes engine branches node env frame .tooDeep
        { scope := frame.scope.start node.id, world }

/-- What executing a component does is allowed by the rules. -/
theorem executes_execute (engine : Engine) (branches : Branches) (node : Node) (env : Environment)
    (frame : Frame) {ending : Ending FlowError Resolution} {after : Frame}
    (hexecute : engine.execute branches node env frame = (ending, after)) :
    Executes engine branches node env frame ending after := by
  unfold execute at hexecute
  obtain ⟨block, start, hcreated, hrun⟩ | ⟨halt, hcreated, rfl⟩ := Step.bind_cases hexecute
  · obtain ⟨hcreate, rfl⟩ := Step.ofExcept_ok hcreated
    unfold runBlock at hrun
    obtain ⟨ran, world, hblock⟩ : ∃ ran world, block (engine.context branches node env)
        (start.world.note (.started node.id node.type)) = (ran, world) := ⟨_, _, rfl⟩
    have hran := hblock
    unfold context at hran
    simp only [hran] at hrun
    cases ran with
    | ok output =>
      cases hrun
      exact .succeeded hcreate hblock
    | error failure =>
      simp only [recordFailure] at hrun
      cases hhandled : failure.outcome?.any node.handles with
      | true =>
        simp only [hhandled, if_true] at hrun
        cases hrun
        exact .contained hcreate hblock hhandled
      | false =>
        simp only [hhandled, Bool.false_eq_true, if_false] at hrun
        cases hrun
        exact .failed hcreate hblock hhandled
    | crashed report =>
      cases hrun
      exact .crashed hcreate hblock
    | tooDeep =>
      cases hrun
      exact .tooDeep hcreate hblock
  · obtain ⟨e, hcreate, rfl, rfl⟩ := Step.ofExcept_halt hcreated
    exact .uncreated hcreate

/-- What the rules allow is what executing the component does. -/
theorem execute_of_executes {engine : Engine} {branches : Branches} {node : Node}
    {env : Environment} {frame after : Frame} {ending : Ending FlowError Resolution}
    (h : Executes engine branches node env frame ending after) :
    engine.execute branches node env frame = (ending, after) := by
  have hcreated : ∀ {block}, engine.registry.create node = .ok block →
      engine.execute branches node env frame = engine.runBlock branches node env block frame := by
    intro block hcreate
    rw [execute, hcreate]
    rfl
  cases h with
  | uncreated hcreate =>
    rw [execute, hcreate]
    rfl
  | succeeded hcreate hblock =>
    unfold context at hblock
    simp only [hcreated hcreate, runBlock, hblock]
    rfl
  | contained hcreate hblock hhandled =>
    unfold context at hblock
    simp only [hcreated hcreate, runBlock, hblock, recordFailure, hhandled]
    rfl
  | failed hcreate hblock hhandled =>
    unfold context at hblock
    simp only [hcreated hcreate, runBlock, hblock, recordFailure, hhandled]
    rfl
  | crashed hcreate hblock =>
    unfold context at hblock
    simp only [hcreated hcreate, runBlock, hblock]
  | tooDeep hcreate hblock =>
    unfold context at hblock
    simp only [hcreated hcreate, runBlock, hblock]

/-- The rules leave no choice in how a component is executed. -/
theorem Executes.unique {engine : Engine} {branches : Branches} {node : Node} {env : Environment}
    {frame after other : Frame} {ending otherEnding : Ending FlowError Resolution}
    (h : Executes engine branches node env frame ending after)
    (hother : Executes engine branches node env frame otherEnding other) :
    ending = otherEnding ∧ after = other :=
  Prod.mk.inj ((execute_of_executes h).symm.trans (execute_of_executes hother))

/-- A component starts to be resolved: its block type is known, it has no record, and it is not being
resolved already. -/
structure Enters (engine : Engine) (node : Node) (frame : Frame) : Prop where
  registered : engine.registry.contains node.type = true
  unrecorded : frame.scope.get? node.id = none
  idle : node.id ∉ frame.scope.resolving

/-- An attempt to execute a component: the environment made for it, the frames before and after it,
and how it ended. -/
structure Attempt where
  node : Node
  env : Environment
  before : Frame
  ending : Ending FlowError Resolution
  after : Frame

mutual

/-- Resolving a component, with the attempts made in the course of it, in order. The component is
executed after what it depends on, if it depends on nothing or if an edge to it was followed. -/
inductive Resolves (engine : Engine) (branches : Branches) (nodes : List Node)
    (env : Environment) :
    Node → Frame → List Attempt → Ending FlowError Resolution → Frame → Prop where
  | unregistered {node : Node} {frame : Frame}
      (hunregistered : engine.registry.contains node.type = false) :
      Resolves engine branches nodes env node frame []
        (.error (.graph (.unknownBlockType node.id node.type))) frame
  | recorded {node : Node} {frame : Frame} {record : Record}
      (hregistered : engine.registry.contains node.type = true)
      (hrecord : frame.scope.get? node.id = some record) :
      Resolves engine branches nodes env node frame [] (.ok (.reached record)) frame
  | cyclic {node : Node} {frame : Frame}
      (hregistered : engine.registry.contains node.type = true)
      (hnew : frame.scope.get? node.id = none)
      (hresolving : node.id ∈ frame.scope.resolving) :
      Resolves engine branches nodes env node frame []
        (.error (.graph (.cyclicDependency node.id))) frame
  | halted {node : Node} {frame between : Frame} {attempts : List Attempt} {halt : Halt FlowError}
      (henters : engine.Enters node frame)
      (hgathers : Gathers engine branches nodes env (dependencies node nodes) .null false
        (frame.enter node.id) attempts halt.ending between) :
      Resolves engine branches nodes env node frame attempts halt.ending (between.leave node.id)
  | returned {node : Node} {frame between : Frame} {attempts : List Attempt} {value : Json}
      (henters : engine.Enters node frame)
      (hgathers : Gathers engine branches nodes env (dependencies node nodes) .null false
        (frame.enter node.id) attempts (.ok (.returned value)) between) :
      Resolves engine branches nodes env node frame attempts (.ok (.returned value))
        (between.leave node.id)
  | unreached {node : Node} {frame between : Frame} {attempts : List Attempt} {result : Json}
      (henters : engine.Enters node frame)
      (hgathers : Gathers engine branches nodes env (dependencies node nodes) .null false
        (frame.enter node.id) attempts (.ok (.ready result false)) between)
      (hneeded : dependencies node nodes ≠ []) :
      Resolves engine branches nodes env node frame attempts (.ok .unreached)
        (between.leave node.id)
  | executed {node : Node} {frame between after : Frame} {attempts : List Attempt} {result : Json}
      {fired : Bool} {ending : Ending FlowError Resolution}
      (henters : engine.Enters node frame)
      (hgathers : Gathers engine branches nodes env (dependencies node nodes) .null false
        (frame.enter node.id) attempts (.ok (.ready result fired)) between)
      (hreached : dependencies node nodes = [] ∨ fired = true)
      (hexecutes : Executes engine branches node (nodeEnv env result between.scope) between
        ending after) :
      Resolves engine branches nodes env node frame
        (attempts ++ [⟨node, nodeEnv env result between.scope, between, ending, after⟩])
        ending (after.leave node.id)

/-- Gathering for a component: resolving its dependencies one after the other, with the result of
the last one that has run, and whether an edge from one of them was followed. -/
inductive Gathers (engine : Engine) (branches : Branches) (nodes : List Node)
    (env : Environment) : List (Node × String) → Json → Bool → Frame → List Attempt →
    Ending FlowError Gathered → Frame → Prop where
  | done {result : Json} {fired : Bool} {frame : Frame} :
      Gathers engine branches nodes env [] result fired frame [] (.ok (.ready result fired)) frame
  | halted {producer : Node} {label : String} {rest : List (Node × String)} {result : Json}
      {fired : Bool} {frame after : Frame} {attempts : List Attempt} {halt : Halt FlowError}
      (hresolves : Resolves engine branches nodes env producer frame attempts halt.ending after) :
      Gathers engine branches nodes env ((producer, label) :: rest) result fired frame attempts
        halt.ending after
  | returned {producer : Node} {label : String} {rest : List (Node × String)} {result : Json}
      {fired : Bool} {frame after : Frame} {attempts : List Attempt} {value : Json}
      (hresolves : Resolves engine branches nodes env producer frame attempts
        (.ok (.returned value)) after) :
      Gathers engine branches nodes env ((producer, label) :: rest) result fired frame attempts
        (.ok (.returned value)) after
  | unreached {producer : Node} {label : String} {rest : List (Node × String)} {result : Json}
      {fired : Bool} {frame between after : Frame} {attempts more : List Attempt}
      {ending : Ending FlowError Gathered}
      (hresolves : Resolves engine branches nodes env producer frame attempts (.ok .unreached)
        between)
      (hrest : Gathers engine branches nodes env rest result fired between more ending after) :
      Gathers engine branches nodes env ((producer, label) :: rest) result fired frame
        (attempts ++ more) ending after
  | ended {producer : Node} {label : String} {rest : List (Node × String)} {result : Json}
      {fired : Bool} {frame after : Frame} {attempts : List Attempt} {record : Record}
      {value : Json}
      (hresolves : Resolves engine branches nodes env producer frame attempts
        (.ok (.reached record)) after)
      (hvalue : record.returned? = some value) :
      Gathers engine branches nodes env ((producer, label) :: rest) result fired frame attempts
        (.ok (.returned value)) after
  | reached {producer : Node} {label : String} {rest : List (Node × String)} {result : Json}
      {fired : Bool} {frame between after : Frame} {attempts more : List Attempt} {record : Record}
      {ending : Ending FlowError Gathered}
      (hresolves : Resolves engine branches nodes env producer frame attempts
        (.ok (.reached record)) between)
      (hvalue : record.returned? = none)
      (hrest : Gathers engine branches nodes env rest record.result
        (fired || record.matches label) between more ending after) :
      Gathers engine branches nodes env ((producer, label) :: rest) result fired frame
        (attempts ++ more) ending after

end

/-- Resolving components one after the other, until one of them has a return value. -/
inductive Pulls (engine : Engine) (branches : Branches) (nodes : List Node)
    (env : Environment) : List Node → Frame → List Attempt →
    Ending FlowError (Option Json) → Frame → Prop where
  | done {frame : Frame} : Pulls engine branches nodes env [] frame [] (.ok none) frame
  | halted {node : Node} {rest : List Node} {frame after : Frame} {attempts : List Attempt}
      {halt : Halt FlowError}
      (hresolves : Resolves engine branches nodes env node frame attempts halt.ending after) :
      Pulls engine branches nodes env (node :: rest) frame attempts halt.ending after
  | returned {node : Node} {rest : List Node} {frame after : Frame} {attempts : List Attempt}
      {value : Json}
      (hresolves : Resolves engine branches nodes env node frame attempts (.ok (.returned value))
        after) :
      Pulls engine branches nodes env (node :: rest) frame attempts (.ok (some value)) after
  | ended {node : Node} {rest : List Node} {frame after : Frame} {attempts : List Attempt}
      {record : Record} {value : Json}
      (hresolves : Resolves engine branches nodes env node frame attempts (.ok (.reached record))
        after)
      (hvalue : record.returned? = some value) :
      Pulls engine branches nodes env (node :: rest) frame attempts (.ok (some value)) after
  | unreached {node : Node} {rest : List Node} {frame between after : Frame}
      {attempts more : List Attempt} {ending : Ending FlowError (Option Json)}
      (hresolves : Resolves engine branches nodes env node frame attempts (.ok .unreached) between)
      (hrest : Pulls engine branches nodes env rest between more ending after) :
      Pulls engine branches nodes env (node :: rest) frame (attempts ++ more) ending after
  | reached {node : Node} {rest : List Node} {frame between after : Frame}
      {attempts more : List Attempt} {record : Record} {ending : Ending FlowError (Option Json)}
      (hresolves : Resolves engine branches nodes env node frame attempts (.ok (.reached record))
        between)
      (hvalue : record.returned? = none)
      (hrest : Pulls engine branches nodes env rest between more ending after) :
      Pulls engine branches nodes env (node :: rest) frame (attempts ++ more) ending after

end Engine

end Workflow
