import Workflow.Proofs.Run.Returned

namespace Workflow

/-- A frame without regard to the components that are being resolved. -/
def Frame.still (frame : Frame) : Frame :=
  { frame with scope := { frame.scope with resolving := [] } }

@[simp] theorem Frame.still_enter (frame : Frame) (id : String) :
    (frame.enter id).still = frame.still := rfl

@[simp] theorem Frame.still_leave (frame : Frame) (id : String) :
    (frame.leave id).still = frame.still := rfl

theorem Frame.records_eq_of_still {frame other : Frame} (h : frame.still = other.still) :
    frame.scope.records = other.scope.records := by
  change frame.still.scope.records = other.still.scope.records
  rw [h]

theorem Frame.world_eq_of_still {frame other : Frame} (h : frame.still = other.still) :
    frame.world = other.world := by
  change frame.still.world = other.still.world
  rw [h]

theorem Frame.started_eq_of_still {frame other : Frame} (h : frame.still = other.still) :
    frame.scope.started = other.scope.started := by
  change frame.still.scope.started = other.still.scope.started
  rw [h]

namespace Engine

/-- Attempts that lead from one frame to another. Between them only what is being resolved
changes. -/
inductive Linked : Frame → List Attempt → Frame → Prop where
  | done {frame after : Frame} (hstill : frame.still = after.still) : Linked frame [] after
  | next {frame after : Frame} {attempt : Attempt} {rest : List Attempt}
      (hstill : frame.still = attempt.before.still) (hrest : Linked attempt.after rest after) :
      Linked frame (attempt :: rest) after

namespace Linked

variable {frame between after : Frame} {attempts more : List Attempt}

/-- Attempts may start from any frame that differs in what is being resolved only. -/
theorem start {other : Frame} (hstill : other.still = frame.still)
    (h : Linked frame attempts after) : Linked other attempts after := by
  cases h with
  | done hdone => exact .done (hstill.trans hdone)
  | next hnext hrest => exact .next (hstill.trans hnext) hrest

/-- Attempts that start where others have ended follow on these. -/
theorem append (h : Linked frame attempts between) (hmore : Linked between more after) :
    Linked frame (attempts ++ more) after := by
  induction h with
  | done hstill => exact hmore.start hstill
  | next hstill _ ih => exact .next hstill (ih hmore)

theorem finish {other : Frame} (h : Linked frame attempts after)
    (hstill : after.still = other.still) : Linked frame attempts other := by
  simpa using h.append (.done hstill)

/-- Attempts that are made while a component is being resolved are made from the frame before it. -/
theorem of_enter {id : String} (h : Linked (frame.enter id) attempts between) :
    Linked frame attempts (between.leave id) :=
  (h.start (frame.still_enter id).symm).finish (between.still_leave id).symm

/-- A run leaves off where its last attempt has ended. -/
theorem still_eq_getLast {last : Attempt} (h : Linked frame attempts after)
    (hlast : attempts.getLast? = some last) : after.still = last.after.still := by
  induction h with
  | done => cases hlast
  | @next _ _ attempt rest _ hrest ih =>
    cases rest with
    | nil =>
      cases hlast
      cases hrest with
      | done hstill => exact hstill.symm
    | cons next rest =>
      rw [List.getLast?_cons_cons] at hlast
      exact ih hlast

end Linked

variable {engine : Engine} {branches : Branches} {nodes : List Node} {env : Environment}

theorem Attempt.Sound.records_prefix {attempt : Attempt} (h : attempt.Sound engine branches) :
    attempt.before.scope.records <+: attempt.after.scope.records := by
  obtain ⟨new, _, hrecords, _⟩ := h.executes.adds h.indexed h.unrecorded
  exact ⟨new, hrecords.symm⟩

/-- The records after an attempt are kept until the end of the run. -/
theorem Linked.records_prefix {frame after : Frame} {attempts : List Attempt}
    (h : Linked frame attempts after) (hsound : ∀ attempt ∈ attempts, attempt.Sound engine branches) :
    frame.scope.records <+: after.scope.records ∧
      ∀ attempt ∈ attempts, attempt.after.scope.records <+: after.scope.records := by
  induction h with
  | done hstill => exact ⟨by rw [Frame.records_eq_of_still hstill], List.forall_mem_nil _⟩
  | @next _ _ attempt _ hstill _ ih =>
    obtain ⟨hfirst, hothers⟩ := List.forall_mem_cons.mp hsound
    obtain ⟨hafter, hall⟩ := ih hothers
    refine ⟨?_, List.forall_mem_cons.mpr ⟨hafter, hall⟩⟩
    rw [Frame.records_eq_of_still hstill]
    exact hfirst.records_prefix.trans hafter

/-- The block of the component could be made, so that it was started. -/
def Attempt.starts (engine : Engine) (attempt : Attempt) : Bool :=
  match engine.registry.create attempt.node with
  | .ok _ => true
  | .error _ => false

/-- An attempt starts the block of its component, unless that could not be made. -/
theorem Attempt.Sound.started_eq {attempt : Attempt} (h : attempt.Sound engine branches) :
    attempt.after.scope.started = attempt.before.scope.started ++
      if attempt.starts engine then [attempt.node.id] else [] := by
  obtain ⟨node, env, before, ending, after⟩ := attempt
  obtain ⟨hexecutes, _, _⟩ := h
  dsimp only [Attempt.starts] at hexecutes ⊢
  cases hexecutes with
  | uncreated hcreate => simp [hcreate]
  | succeeded hcreate _ => simp [hcreate]
  | contained hcreate _ _ => simp [hcreate]
  | failed hcreate _ _ => simp [hcreate]
  | crashed hcreate _ => simp [hcreate]
  | tooDeep hcreate _ => simp [hcreate]

/-- A run starts the blocks of its attempts, but for those that could not be made. -/
theorem Linked.started_eq {frame after : Frame} {attempts : List Attempt}
    (h : Linked frame attempts after) (hsound : ∀ attempt ∈ attempts, attempt.Sound engine branches) :
    after.scope.started = frame.scope.started ++
      (attempts.filter (Attempt.starts engine)).map (·.node.id) := by
  induction h with
  | done hstill => simp [Frame.started_eq_of_still hstill]
  | @next frame _ attempt rest hstill _ ih =>
    obtain ⟨hfirst, hothers⟩ := List.forall_mem_cons.mp hsound
    rw [ih hothers, hfirst.started_eq, Frame.started_eq_of_still hstill, List.filter_cons]
    split <;> simp

mutual

theorem Resolves.linked {node : Node} {frame after : Frame} {attempts : List Attempt}
    {ending : Ending FlowError Resolution}
    (h : Resolves engine branches nodes env node frame attempts ending after) :
    Linked frame attempts after := by
  match h with
  | .unregistered _ => exact .done rfl
  | .recorded _ _ => exact .done rfl
  | .cyclic _ _ _ => exact .done rfl
  | .halted _ hgathers => exact hgathers.linked.of_enter
  | .returned _ hgathers => exact hgathers.linked.of_enter
  | .unreached _ hgathers _ => exact hgathers.linked.of_enter
  | .executed _ hgathers _ _ => exact (hgathers.linked.append (.next rfl (.done rfl))).of_enter

theorem Gathers.linked {needed : List (Node × String)} {result : Json} {fired : Bool}
    {frame after : Frame} {attempts : List Attempt} {ending : Ending FlowError Gathered}
    (h : Gathers engine branches nodes env needed result fired frame attempts ending after) :
    Linked frame attempts after := by
  match h with
  | .done => exact .done rfl
  | .halted hresolves => exact hresolves.linked
  | .returned hresolves => exact hresolves.linked
  | .unreached hresolves hrest => exact hresolves.linked.append hrest.linked
  | .ended hresolves _ => exact hresolves.linked
  | .reached hresolves _ hrest => exact hresolves.linked.append hrest.linked

end

/-- The attempts of a run follow on each other: each starts where the one before it has ended. -/
theorem Pulls.linked {pulled : List Node} {frame after : Frame} {attempts : List Attempt}
    {ending : Ending FlowError (Option Json)}
    (h : Pulls engine branches nodes env pulled frame attempts ending after) :
    Linked frame attempts after := by
  induction h with
  | done => exact .done rfl
  | halted hresolves => exact hresolves.linked
  | returned hresolves => exact hresolves.linked
  | ended hresolves _ => exact hresolves.linked
  | unreached hresolves _ ih => exact hresolves.linked.append ih
  | reached hresolves _ _ ih => exact hresolves.linked.append ih

/-- The attempts of a run are made in the order in which they are listed, each on a component without
a record. -/
theorem Pulls.sound {pulled : List Node} {frame after : Frame} {attempts : List Attempt}
    {ending : Ending FlowError (Option Json)}
    (h : Pulls engine branches nodes env pulled frame attempts ending after)
    (hindexed : frame.scope.Indexed) : ∀ attempt ∈ attempts, attempt.Sound engine branches := by
  induction h with
  | done => exact List.forall_mem_nil _
  | halted hresolves => exact hresolves.sound hindexed
  | returned hresolves => exact hresolves.sound hindexed
  | ended hresolves _ => exact hresolves.sound hindexed
  | unreached hresolves _ ih =>
    exact List.forall_mem_append.mpr ⟨hresolves.sound hindexed, ih (hresolves.indexed hindexed)⟩
  | reached hresolves _ _ ih =>
    exact List.forall_mem_append.mpr ⟨hresolves.sound hindexed, ih (hresolves.indexed hindexed)⟩

mutual

/-- Every attempt is an execution of its component. What holds of the component that is resolved and
of those of the run holds of every component that is attempted. -/
theorem Resolves.attempted {node : Node} {frame after : Frame} {attempts : List Attempt}
    {ending : Ending FlowError Resolution}
    (h : Resolves engine branches nodes env node frame attempts ending after)
    {holds : Node → Prop} (hnodes : ∀ other ∈ nodes, holds other) (hnode : holds node) :
    ∀ attempt ∈ attempts, holds attempt.node ∧
      Executes engine branches attempt.node attempt.env attempt.before attempt.ending
        attempt.after := by
  have hneeded : ∀ dependency ∈ dependencies node nodes, holds dependency.1 :=
    fun _ hmem => hnodes _ (mem_of_mem_dependencies hmem)
  match h with
  | .unregistered _ => exact List.forall_mem_nil _
  | .recorded _ _ => exact List.forall_mem_nil _
  | .cyclic _ _ _ => exact List.forall_mem_nil _
  | .halted _ hgathers => exact hgathers.attempted hnodes hneeded
  | .returned _ hgathers => exact hgathers.attempted hnodes hneeded
  | .unreached _ hgathers _ => exact hgathers.attempted hnodes hneeded
  | .executed _ hgathers _ hexecutes =>
    exact List.forall_mem_append.mpr ⟨hgathers.attempted hnodes hneeded,
      List.forall_mem_singleton.mpr ⟨hnode, hexecutes⟩⟩

theorem Gathers.attempted {needed : List (Node × String)} {result : Json} {fired : Bool}
    {frame after : Frame} {attempts : List Attempt} {ending : Ending FlowError Gathered}
    (h : Gathers engine branches nodes env needed result fired frame attempts ending after)
    {holds : Node → Prop} (hnodes : ∀ other ∈ nodes, holds other)
    (hneeded : ∀ dependency ∈ needed, holds dependency.1) :
    ∀ attempt ∈ attempts, holds attempt.node ∧
      Executes engine branches attempt.node attempt.env attempt.before attempt.ending
        attempt.after := by
  match h with
  | .done => exact List.forall_mem_nil _
  | .halted hresolves => exact hresolves.attempted hnodes (List.forall_mem_cons.mp hneeded).1
  | .returned hresolves => exact hresolves.attempted hnodes (List.forall_mem_cons.mp hneeded).1
  | .unreached hresolves hrest =>
    obtain ⟨hproducer, hothers⟩ := List.forall_mem_cons.mp hneeded
    exact List.forall_mem_append.mpr
      ⟨hresolves.attempted hnodes hproducer, hrest.attempted hnodes hothers⟩
  | .ended hresolves _ => exact hresolves.attempted hnodes (List.forall_mem_cons.mp hneeded).1
  | .reached hresolves _ hrest =>
    obtain ⟨hproducer, hothers⟩ := List.forall_mem_cons.mp hneeded
    exact List.forall_mem_append.mpr
      ⟨hresolves.attempted hnodes hproducer, hrest.attempted hnodes hothers⟩

end

/-- Every attempt of a run is an execution of one of its components. -/
theorem Pulls.attempted {pulled : List Node} {frame after : Frame} {attempts : List Attempt}
    {ending : Ending FlowError (Option Json)}
    (h : Pulls engine branches nodes env pulled frame attempts ending after)
    {holds : Node → Prop} (hnodes : ∀ other ∈ nodes, holds other)
    (hpulled : ∀ node ∈ pulled, holds node) :
    ∀ attempt ∈ attempts, holds attempt.node ∧
      Executes engine branches attempt.node attempt.env attempt.before attempt.ending
        attempt.after := by
  induction h with
  | done => exact List.forall_mem_nil _
  | halted hresolves => exact hresolves.attempted hnodes (List.forall_mem_cons.mp hpulled).1
  | returned hresolves => exact hresolves.attempted hnodes (List.forall_mem_cons.mp hpulled).1
  | ended hresolves _ => exact hresolves.attempted hnodes (List.forall_mem_cons.mp hpulled).1
  | unreached hresolves _ ih =>
    obtain ⟨hnode, hothers⟩ := List.forall_mem_cons.mp hpulled
    exact List.forall_mem_append.mpr ⟨hresolves.attempted hnodes hnode, ih hothers⟩
  | reached hresolves _ _ ih =>
    obtain ⟨hnode, hothers⟩ := List.forall_mem_cons.mp hpulled
    exact List.forall_mem_append.mpr ⟨hresolves.attempted hnodes hnode, ih hothers⟩

theorem Resolves.executes {node : Node} {frame after : Frame} {attempts : List Attempt}
    {ending : Ending FlowError Resolution}
    (h : Resolves engine branches nodes env node frame attempts ending after) :
    ∀ attempt ∈ attempts, Executes engine branches attempt.node attempt.env attempt.before
      attempt.ending attempt.after := by
  intro attempt hattempt
  have hmade := h.attempted (fun _ _ => trivial) trivial attempt hattempt
  exact hmade.2

theorem Pulls.executes {pulled : List Node} {frame after : Frame} {attempts : List Attempt}
    {ending : Ending FlowError (Option Json)}
    (h : Pulls engine branches nodes env pulled frame attempts ending after) :
    ∀ attempt ∈ attempts, Executes engine branches attempt.node attempt.env attempt.before
      attempt.ending attempt.after := by
  intro attempt hattempt
  have hmade := h.attempted (fun _ _ => trivial) (fun _ _ => trivial) attempt hattempt
  exact hmade.2

theorem Pulls.mem_nodes {pulled : List Node} {frame after : Frame} {attempts : List Attempt}
    {ending : Ending FlowError (Option Json)}
    (h : Pulls engine branches nodes env pulled frame attempts ending after)
    (hpulled : ∀ node ∈ pulled, node ∈ nodes) : ∀ attempt ∈ attempts, attempt.node ∈ nodes :=
  fun attempt hattempt => (h.attempted (fun _ hmem => hmem) hpulled attempt hattempt).1

/-- What an attempt came to: the return value of its record, or how it halted. -/
def Attempt.outcome (attempt : Attempt) : Ending FlowError (Option Json) :=
  attempt.ending.map Resolution.value?

/-- How a run ends that makes the given attempts. It goes on after an attempt without a return value
and ends with the first one that has one or that halted; without such an attempt it has no return
value, or it has met an unknown type or a cycle. -/
inductive Concludes : List Attempt → Ending FlowError (Option Json) → Prop where
  | quiet : Concludes [] (.ok none)
  | malformed (e : GraphError) : Concludes [] (.error (.graph e))
  | last {attempt : Attempt} (hends : attempt.outcome ≠ .ok none) :
      Concludes [attempt] attempt.outcome
  | passed {attempt : Attempt} {rest : List Attempt} {outcome : Ending FlowError (Option Json)}
      (hpasses : attempt.outcome = .ok none) (hrest : Concludes rest outcome) :
      Concludes (attempt :: rest) outcome

namespace Concludes

variable {attempts more : List Attempt} {outcome : Ending FlowError (Option Json)}

/-- One attempt concludes with what it came to. -/
theorem single (attempt : Attempt) : Concludes [attempt] attempt.outcome := by
  by_cases hpasses : attempt.outcome = .ok none
  · rw [hpasses]
    exact .passed hpasses .quiet
  · exact .last hpasses

/-- Attempts that have all passed may stand before those that conclude. -/
theorem append (h : Concludes attempts (.ok none)) (hmore : Concludes more outcome) :
    Concludes (attempts ++ more) outcome := by
  generalize hnone : (.ok none : Ending FlowError (Option Json)) = first at h
  induction h with
  | quiet => exact hmore
  | malformed e => cases hnone
  | last hends => exact absurd hnone.symm hends
  | passed hpasses _ ih => exact .passed hpasses (ih hnone)

/-- All attempts but the last one have passed. -/
theorem of_mem_dropLast (h : Concludes attempts outcome) :
    ∀ attempt ∈ attempts.dropLast, attempt.outcome = .ok none := by
  induction h with
  | quiet => exact List.forall_mem_nil _
  | malformed _ => exact List.forall_mem_nil _
  | last _ => exact List.forall_mem_nil _
  | @passed attempt rest _ hpasses _ ih =>
    cases rest with
    | nil => exact List.forall_mem_nil _
    | cons next rest =>
      rw [List.dropLast_cons_cons]
      exact List.forall_mem_cons.mpr ⟨hpasses, ih⟩

/-- A run ends with a block error just if its last attempt does. -/
theorem eq_block_iff (h : Concludes attempts outcome) {id : String} {e : BlockError} :
    outcome = .error (.block id e) ↔
      ∃ last, attempts.getLast? = some last ∧ last.outcome = .error (.block id e) := by
  induction h with
  | quiet => simp
  | malformed _ => simp
  | @last attempt _ => simp
  | @passed attempt rest _ hpasses hrest ih =>
    rw [ih]
    cases rest with
    | nil => simp [hpasses]
    | cons next rest => rw [List.getLast?_cons_cons]

end Concludes

mutual

/-- All but the last attempt of resolving a component go on without a return value, and the last one
tells how resolving ends. -/
theorem Resolves.concludes {node : Node} {frame after : Frame} {attempts : List Attempt}
    {ending : Ending FlowError Resolution}
    (h : Resolves engine branches nodes env node frame attempts ending after)
    (hindexed : frame.scope.Indexed) (hquiet : Quiet frame.scope.records) :
    Concludes attempts (ending.map Resolution.value?) := by
  match h with
  | .unregistered _ => exact .malformed _
  | .recorded _ hrecord =>
    have hvalue := hquiet _ (hindexed.get?_eq_some_iff.mp hrecord).1
    simp only [Ending.map, Resolution.value?, hvalue]
    exact .quiet
  | .cyclic _ _ _ => exact .malformed _
  | .halted _ hgathers =>
    have hbetween := hgathers.concludes (hindexed.enter node.id) hquiet
    rwa [Halt.map_ending] at hbetween ⊢
  | .returned _ hgathers => exact hgathers.concludes (hindexed.enter node.id) hquiet
  | .unreached _ hgathers _ => exact hgathers.concludes (hindexed.enter node.id) hquiet
  | .executed _ hgathers _ _ =>
    exact (hgathers.concludes (hindexed.enter node.id) hquiet).append (.single _)

theorem Gathers.concludes {needed : List (Node × String)} {result : Json} {fired : Bool}
    {frame after : Frame} {attempts : List Attempt} {ending : Ending FlowError Gathered}
    (h : Gathers engine branches nodes env needed result fired frame attempts ending after)
    (hindexed : frame.scope.Indexed) (hquiet : Quiet frame.scope.records) :
    Concludes attempts (ending.map Gathered.value?) := by
  match h with
  | .done => exact .quiet
  | .halted hresolves =>
    have hfirst := hresolves.concludes hindexed hquiet
    rwa [Halt.map_ending] at hfirst ⊢
  | .returned hresolves => exact hresolves.concludes hindexed hquiet
  | .unreached hresolves hrest =>
    have hbetween : Quiet _ := hresolves.returns hindexed hquiet
    exact (hresolves.concludes hindexed hquiet).append
      (hrest.concludes (hresolves.indexed hindexed) hbetween)
  | .ended hresolves hvalue =>
    have hfirst := hresolves.concludes hindexed hquiet
    simp only [Ending.map, Resolution.value?, hvalue] at hfirst
    exact hfirst
  | .reached hresolves hvalue hrest =>
    have hbetween := hresolves.returns hindexed hquiet
    have hfirst := hresolves.concludes hindexed hquiet
    simp only [Ending.map, Resolution.value?, hvalue] at hbetween hfirst
    exact hfirst.append (hrest.concludes (hresolves.indexed hindexed) hbetween)

end

/-- All but the last attempt of a run go on without a return value, and the last one tells how the
run ends. -/
theorem Pulls.concludes {pulled : List Node} {frame after : Frame} {attempts : List Attempt}
    {ending : Ending FlowError (Option Json)}
    (h : Pulls engine branches nodes env pulled frame attempts ending after)
    (hindexed : frame.scope.Indexed) (hquiet : Quiet frame.scope.records) :
    Concludes attempts ending := by
  induction h with
  | done => exact .quiet
  | halted hresolves =>
    have hfirst := hresolves.concludes hindexed hquiet
    rwa [Halt.map_ending] at hfirst
  | returned hresolves => exact hresolves.concludes hindexed hquiet
  | ended hresolves hvalue =>
    have hfirst := hresolves.concludes hindexed hquiet
    simp only [Ending.map, Resolution.value?, hvalue] at hfirst
    exact hfirst
  | unreached hresolves _ ih =>
    have hbetween : Quiet _ := hresolves.returns hindexed hquiet
    exact (hresolves.concludes hindexed hquiet).append (ih (hresolves.indexed hindexed) hbetween)
  | reached hresolves hvalue _ ih =>
    have hbetween := hresolves.returns hindexed hquiet
    have hfirst := hresolves.concludes hindexed hquiet
    simp only [Ending.map, Resolution.value?, hvalue] at hbetween hfirst
    exact hfirst.append (ih (hresolves.indexed hindexed) hbetween)

end Engine

end Workflow
