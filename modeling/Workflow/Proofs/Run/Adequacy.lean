import Mathlib.Data.Finset.Card
import Workflow.Proofs.Run.Acyclic
import Workflow.Proofs.Run.Rules
import Workflow.Proofs.Run.Scope

namespace Workflow.Engine

variable {engine : Engine} {branches : Branches} {nodes : List Node} {env : Environment}

theorem Executes.resolving_eq {node : Node} {frame after : Frame}
    {ending : Ending FlowError Resolution}
    (h : Executes engine branches node env frame ending after) :
    after.scope.resolving = frame.scope.resolving := by
  cases h <;> simp

mutual

/-- However a component is resolved, the same components are being resolved afterwards. -/
theorem Resolves.resolving_eq {node : Node} {frame after : Frame}
    {attempts : List Attempt} {ending : Ending FlowError Resolution}
    (h : Resolves engine branches nodes env node frame attempts ending after) :
    after.scope.resolving = frame.scope.resolving := by
  match h with
  | .unregistered _ => rfl
  | .recorded _ _ => rfl
  | .cyclic _ _ _ => rfl
  | .halted _ hgathers =>
    have hbetween := hgathers.resolving_eq
    simp [Frame.leave, hbetween, Frame.enter]
  | .returned _ hgathers =>
    have hbetween := hgathers.resolving_eq
    simp [Frame.leave, hbetween, Frame.enter]
  | .unreached _ hgathers _ =>
    have hbetween := hgathers.resolving_eq
    simp [Frame.leave, hbetween, Frame.enter]
  | .executed _ hgathers _ hexecutes =>
    have hbetween := hgathers.resolving_eq
    simp [Frame.leave, hexecutes.resolving_eq, hbetween, Frame.enter]

theorem Gathers.resolving_eq {needed : List (Node × String)} {result : Json} {fired : Bool}
    {frame after : Frame} {attempts : List Attempt} {ending : Ending FlowError Gathered}
    (h : Gathers engine branches nodes env needed result fired frame attempts ending after) :
    after.scope.resolving = frame.scope.resolving := by
  match h with
  | .done => rfl
  | .halted hresolves => exact hresolves.resolving_eq
  | .returned hresolves => exact hresolves.resolving_eq
  | .unreached hresolves hrest => exact hrest.resolving_eq.trans hresolves.resolving_eq
  | .ended hresolves _ => exact hresolves.resolving_eq
  | .reached hresolves _ hrest => exact hrest.resolving_eq.trans hresolves.resolving_eq

end

/-- Gathering follows the rules if resolving the producers does, in every frame in which the same
components are being resolved. -/
theorem gathers_gather {resolve : Node → Step Frame FlowError Resolution} (resolving : List String)
    (hresolve : ∀ producer ∈ nodes, ∀ frame : Frame, frame.scope.resolving = resolving →
      ∀ ending after, resolve producer frame = (ending, after) →
        ∃ attempts, Resolves engine branches nodes env producer frame attempts ending after) :
    ∀ (needed : List (Node × String)), (∀ dependency ∈ needed, dependency.1 ∈ nodes) →
      ∀ (result : Json) (fired : Bool) (frame : Frame), frame.scope.resolving = resolving →
        ∀ ending after, gather resolve needed result fired frame = (ending, after) →
          ∃ attempts, Gathers engine branches nodes env needed result fired frame attempts
            ending after := by
  intro needed
  induction needed with
  | nil =>
    intro _ result fired frame _ ending after hgather
    cases hgather
    exact ⟨[], .done⟩
  | cons dependency rest ih =>
    obtain ⟨producer, label⟩ := dependency
    intro hneeded result fired frame hframe ending after hgather
    obtain ⟨hproducer, hrest⟩ := List.forall_mem_cons.mp hneeded
    rw [gather] at hgather
    obtain ⟨resolution, between, hfirst, hnext⟩ | ⟨halt, hfirst, rfl⟩ := Step.bind_cases hgather
    · obtain ⟨attempts, hresolves⟩ := hresolve producer hproducer frame hframe _ _ hfirst
      have hbetween := hresolves.resolving_eq.trans hframe
      cases resolution with
      | unreached =>
        obtain ⟨more, hgathers⟩ := ih hrest result fired between hbetween _ _ hnext
        exact ⟨_, .unreached hresolves hgathers⟩
      | returned value =>
        cases hnext
        exact ⟨_, .returned hresolves⟩
      | reached record =>
        dsimp only at hnext
        cases hvalue : record.returned? with
        | some value =>
          rw [hvalue] at hnext
          cases hnext
          exact ⟨_, .ended hresolves hvalue⟩
        | none =>
          rw [hvalue] at hnext
          obtain ⟨more, hgathers⟩ := ih hrest _ _ between hbetween _ _ hnext
          exact ⟨_, .reached hresolves hvalue hgathers⟩
    · obtain ⟨attempts, hresolves⟩ := hresolve producer hproducer frame hframe _ _ hfirst
      exact ⟨_, .halted hresolves⟩

/-- The ids among a component and those of the run that may still be entered. -/
def enterable (nodes : List Node) (node : Node) (resolving : List String) : Finset String :=
  ((node :: nodes).map Node.id).toFinset \ resolving.toFinset

/-- With each component that is entered, there is one less that may still be. -/
theorem enterable_ssubset {node producer : Node} {resolving : List String}
    (hproducer : producer ∈ nodes) (hidle : node.id ∉ resolving) :
    enterable nodes producer (node.id :: resolving) ⊂ enterable nodes node resolving := by
  rw [Finset.ssubset_iff_of_subset]
  · exact ⟨node.id, by simp [enterable, hidle], by simp [enterable]⟩
  · intro id hid
    simp only [enterable, Finset.mem_sdiff, List.mem_toFinset, List.map_cons, List.mem_cons,
      not_or] at hid ⊢
    refine ⟨Or.inr ?_, hid.2.2⟩
    rcases hid.1 with rfl | hmem
    · exact List.mem_map_of_mem hproducer
    · exact hmem

/-- An entered component follows the rules if gathering for it does. -/
private theorem resolves_of_enters {node : Node} {frame after : Frame}
    {resolve : Node → Step Frame FlowError Resolution} {ending : Ending FlowError Resolution}
    (henters : engine.Enters node frame)
    (hgather : ∀ ending after,
      gather resolve (dependencies node nodes) .null false (frame.enter node.id) = (ending, after) →
        ∃ attempts, Gathers engine branches nodes env (dependencies node nodes) .null false
          (frame.enter node.id) attempts ending after)
    (hstep : (gather resolve (dependencies node nodes) .null false >>=
      engine.executeReached branches env node (dependencies node nodes).isEmpty)
        (frame.enter node.id) = (ending, after)) :
    ∃ attempts,
      Resolves engine branches nodes env node frame attempts ending (after.leave node.id) := by
  obtain ⟨gathered, between, hgathered, hreached⟩ | ⟨halt, hgathered, rfl⟩ := Step.bind_cases hstep
  · obtain ⟨attempts, hgathers⟩ := hgather _ _ hgathered
    cases gathered with
    | returned value =>
      cases hreached
      exact ⟨_, .returned henters hgathers⟩
    | ready result fired =>
      unfold executeReached at hreached
      by_cases hfires : ((dependencies node nodes).isEmpty || fired) = true
      · simp only [hfires, if_true] at hreached
        refine ⟨_, .executed henters hgathers ?_ (executes_execute _ _ _ _ _ hreached)⟩
        simpa using hfires
      · simp only [if_neg hfires] at hreached
        cases hreached
        obtain ⟨hneeded, hfired⟩ : dependencies node nodes ≠ [] ∧ fired = false := by
          simpa using hfires
        subst hfired
        exact ⟨_, .unreached henters hgathers hneeded⟩
  · obtain ⟨attempts, hgathers⟩ := hgather _ _ hgathered
    exact ⟨_, .halted henters hgathers⟩

/-- Resolving follows the rules if the allowed depth exceeds the number of components that may still
be entered: a chain of dependencies enters a new one with every link. -/
theorem resolves_resolve (depth : Nat) : ∀ (node : Node) (frame : Frame),
    (enterable nodes node frame.scope.resolving).card < depth →
      ∀ ending after, engine.resolve branches nodes env depth node frame = (ending, after) →
        ∃ attempts, Resolves engine branches nodes env node frame attempts ending after := by
  induction depth with
  | zero =>
    intro node frame hroom
    omega
  | succ depth ih =>
    intro node frame hroom ending after hresolve
    unfold resolve at hresolve
    cases hregistered : engine.registry.contains node.type with
    | false =>
      simp only [hregistered, Bool.not_false, if_true] at hresolve
      cases hresolve
      exact ⟨_, .unregistered hregistered⟩
    | true =>
      simp only [hregistered, Bool.not_true, Bool.false_eq_true, if_false] at hresolve
      cases hrecord : frame.scope.get? node.id with
      | some record =>
        simp only [hrecord] at hresolve
        cases hresolve
        exact ⟨_, .recorded hregistered hrecord⟩
      | none =>
        simp only [hrecord] at hresolve
        by_cases hresolving : node.id ∈ frame.scope.resolving
        · simp only [if_pos hresolving] at hresolve
          cases hresolve
          exact ⟨_, .cyclic hregistered hrecord hresolving⟩
        · simp only [if_neg hresolving] at hresolve
          cases hresolve
          refine resolves_of_enters ⟨hregistered, hrecord, hresolving⟩ ?_ rfl
          refine gathers_gather (node.id :: frame.scope.resolving) ?_ _
            (fun _ => mem_of_mem_dependencies) .null false _ rfl
          intro producer hproducer between hbetween
          apply ih producer between
          rw [hbetween]
          -- The component itself is being resolved now and cannot be entered once more.
          have hless := Finset.card_lt_card (enterable_ssubset hproducer hresolving)
          omega

/-- The depth that a run allows is enough. -/
theorem card_enterable_lt {node : Node} {resolving : List String} :
    (enterable nodes node resolving).card < nodes.length + 2 := by
  have hsub := Finset.card_le_card (Finset.sdiff_subset
    (s := ((node :: nodes).map Node.id).toFinset) (t := resolving.toFinset))
  have hcard := List.toFinset_card_le ((node :: nodes).map Node.id)
  rw [List.length_map, List.length_cons] at hcard
  unfold enterable
  omega

/-- Resolving a component of a run follows the rules from every frame. -/
theorem resolves_runNode {node : Node} {frame after : Frame}
    {ending : Ending FlowError Resolution}
    (hrun : engine.runNode branches nodes env node frame = (ending, after)) :
    ∃ attempts, Resolves engine branches nodes env node frame attempts ending after := by
  exact resolves_resolve (nodes.length + 2) node frame card_enterable_lt ending after hrun

/-- Running components one after the other follows the rules. -/
theorem pulls_runEach {frame after : Frame} {ending : Ending FlowError (Option Json)}
    {pulled : List Node}
    (hrun : engine.runEach branches nodes env pulled frame = (ending, after)) :
    ∃ attempts, Pulls engine branches nodes env pulled frame attempts ending after := by
  induction pulled generalizing frame with
  | nil =>
    cases hrun
    exact ⟨_, .done⟩
  | cons node rest ih =>
    rw [runEach] at hrun
    obtain ⟨resolution, between, hfirst, hnext⟩ | ⟨halt, hfirst, rfl⟩ := Step.bind_cases hrun
    · obtain ⟨attempts, hresolves⟩ := resolves_runNode hfirst
      cases resolution with
      | unreached =>
        obtain ⟨more, hpulls⟩ := ih hnext
        exact ⟨_, .unreached hresolves hpulls⟩
      | returned value =>
        cases hnext
        exact ⟨_, .returned hresolves⟩
      | reached record =>
        dsimp only at hnext
        cases hvalue : record.returned? with
        | some value =>
          rw [hvalue] at hnext
          cases hnext
          exact ⟨_, .ended hresolves hvalue⟩
        | none =>
          rw [hvalue] at hnext
          obtain ⟨more, hpulls⟩ := ih hnext
          exact ⟨_, .reached hresolves hvalue hpulls⟩
    · obtain ⟨attempts, hresolves⟩ := resolves_runNode hfirst
      exact ⟨_, .halted hresolves⟩

/-- A run of components follows the rules. -/
theorem pulls_runNodes (engine : Engine) (branches : Branches) (nodes : List Node)
    (env : Environment) (frame : Frame) :
    ∃ attempts, Pulls engine branches nodes env (terminals nodes) frame attempts
      (engine.runNodes branches nodes env frame).1 (engine.runNodes branches nodes env frame).2 :=
  pulls_runEach rfl

end Workflow.Engine
