import Workflow.Proofs.Run.Cycles
import Workflow.Proofs.Validation.WellFormed

namespace Workflow

open Relation

variable {nodes : List Node}

/-- A cycle of dependencies is a cycle of edges. -/
theorem Acyclic.not_transGen_needs (hacyclic : Acyclic nodes) {node : Node} (hnode : node ∈ nodes) :
    ¬ TransGen (Needs nodes) node node := by
  have hback : ∀ other, TransGen (Needs nodes) node other → TransGen (Feeds nodes) other node := by
    intro other hpath
    induction hpath with
    | single hneeds =>
      obtain ⟨_, hmem⟩ := hneeds
      exact .single (feeds_of_mem_dependencies hnode hmem)
    | tail _ hneeds ih =>
      obtain ⟨_, hmem⟩ := hneeds
      obtain ⟨_, hfeeds, _⟩ := TransGen.head'_iff.mp ih
      exact .head (feeds_of_mem_dependencies hfeeds.1 hmem) ih
  exact fun hcycle => hacyclic node (hback node hcycle)

namespace Engine

variable {engine : Engine} {branches : Branches} {env : Environment}

/-- What is wrong with the components of a run, by the error of the graph that ends it. -/
inductive Faulty (engine : Engine) (nodes : List Node) : GraphError → Prop
  /-- The type of a component is not registered. -/
  | unregistered {node} : node ∈ nodes → engine.registry.contains node.type = false →
      Faulty engine nodes (.unknownBlockType node.id node.type)
  /-- A component depends on itself, directly or not. -/
  | cyclic {node} : node ∈ nodes → TransGen (Needs nodes) node node →
      Faulty engine nodes (.cyclicDependency node.id)

/-- A component of a registered type fails in its block, not in the graph. -/
theorem Executes.ne_graph {node : Node} {frame after : Frame} {ending : Ending FlowError Resolution}
    (h : Executes engine branches node env frame ending after)
    (hregistered : engine.registry.contains node.type = true) (e : GraphError) :
    ending ≠ .error (.graph e) := by
  cases h with
  | uncreated hcreate =>
    rintro ⟨⟩
    obtain ⟨type, hfind⟩ := Option.isSome_iff_exists.mp hregistered
    simp only [Registry.create, hfind] at hcreate
    split at hcreate <;> cases hcreate
  | succeeded _ _ => simp
  | contained _ _ _ => simp
  | failed _ _ _ => simp
  | crashed _ _ => simp
  | tooDeep _ _ => simp

/-- What is being resolved afterwards needs what it needed before. -/
theorem Resolves.needing {node other : Node} {frame after : Frame} {attempts : List Attempt}
    {ending : Ending FlowError Resolution}
    (h : Resolves engine branches nodes env node frame attempts ending after)
    (hneeding : frame.scope.Needing nodes other) : after.scope.Needing nodes other := by
  rwa [Scope.Needing, h.resolving_eq]

mutual

/-- Resolving a component that all those being resolved need fails in the graph only if something is
wrong with the components. -/
theorem Resolves.faulty {node : Node} {frame after : Frame} {attempts : List Attempt}
    {ending : Ending FlowError Resolution}
    (h : Resolves engine branches nodes env node frame attempts ending after)
    (hids : Identified nodes) (hnode : node ∈ nodes) (hneeding : frame.scope.Needing nodes node)
    (e : GraphError) (hending : ending = .error (.graph e)) : engine.Faulty nodes e := by
  match h with
  | .unregistered hunregistered =>
    cases hending
    exact .unregistered hnode hunregistered
  | .recorded _ _ => cases hending
  | .cyclic _ _ hresolving =>
    cases hending
    exact .cyclic hnode (hneeding.transGen_self hids hnode hresolving)
  | .halted _ hgathers =>
    exact hgathers.faulty hids (fun _ => hneeding.enter hnode) (fun _ => mem_of_mem_dependencies) e
      (Halt.ending_eq_error.mpr (Halt.ending_eq_error.mp hending))
  | .returned _ _ => cases hending
  | .unreached _ _ _ => cases hending
  | .executed henters _ _ hexecutes =>
    exact absurd hending (hexecutes.ne_graph henters.registered e)

/-- Gathering for a component fails in the graph only if something is wrong with the components. -/
theorem Gathers.faulty {needed : List (Node × String)} {result : Json} {fired : Bool}
    {frame after : Frame} {attempts : List Attempt} {ending : Ending FlowError Gathered}
    (h : Gathers engine branches nodes env needed result fired frame attempts ending after)
    (hids : Identified nodes)
    (hneeding : ∀ dependency ∈ needed, frame.scope.Needing nodes dependency.1)
    (hneeded : ∀ dependency ∈ needed, dependency.1 ∈ nodes)
    (e : GraphError) (hending : ending = .error (.graph e)) : engine.Faulty nodes e := by
  match h with
  | .done => cases hending
  | .halted hresolves =>
    exact hresolves.faulty hids (List.forall_mem_cons.mp hneeded).1
      (List.forall_mem_cons.mp hneeding).1 e
      (Halt.ending_eq_error.mpr (Halt.ending_eq_error.mp hending))
  | .returned _ => cases hending
  | .unreached hresolves hrest =>
    obtain ⟨_, hothers⟩ := List.forall_mem_cons.mp hneeding
    exact hrest.faulty hids (fun dependency hmem => hresolves.needing (hothers dependency hmem))
      (List.forall_mem_cons.mp hneeded).2 e hending
  | .ended _ _ => cases hending
  | .reached hresolves _ hrest =>
    obtain ⟨_, hothers⟩ := List.forall_mem_cons.mp hneeding
    exact hrest.faulty hids (fun dependency hmem => hresolves.needing (hothers dependency hmem))
      (List.forall_mem_cons.mp hneeded).2 e hending

end

/-- A run fails in the graph only if something is wrong with its components. Those that are being
resolved form a chain of dependencies up to the current one, so one that is met again is on a
cycle. -/
theorem Pulls.faulty {pulled : List Node} {frame after : Frame} {attempts : List Attempt}
    {ending : Ending FlowError (Option Json)}
    (h : Pulls engine branches nodes env pulled frame attempts ending after)
    (hids : Identified nodes) (hpulled : ∀ node ∈ pulled, node ∈ nodes)
    (hneeding : ∀ node, frame.scope.Needing nodes node)
    (e : GraphError) (hending : ending = .error (.graph e)) : engine.Faulty nodes e := by
  induction h with
  | done => cases hending
  | halted hresolves =>
    exact hresolves.faulty hids (List.forall_mem_cons.mp hpulled).1 (hneeding _) e
      (Halt.ending_eq_error.mpr (Halt.ending_eq_error.mp hending))
  | returned _ => cases hending
  | ended _ _ => cases hending
  | unreached hresolves _ ih =>
    exact ih (List.forall_mem_cons.mp hpulled).2 (fun other => hresolves.needing (hneeding other))
      hending
  | reached hresolves _ _ ih =>
    exact ih (List.forall_mem_cons.mp hpulled).2 (fun other => hresolves.needing (hneeding other))
      hending

/-- A run of components of registered types that have no cycle does not end with an error of the
graph. -/
theorem Pulls.ne_graph {pulled : List Node} {frame after : Frame} {attempts : List Attempt}
    {ending : Ending FlowError (Option Json)}
    (h : Pulls engine branches nodes env pulled frame attempts ending after)
    (hids : Identified nodes) (hacyclic : Acyclic nodes)
    (hregistered : ∀ node ∈ nodes, engine.registry.contains node.type = true)
    (hpulled : ∀ node ∈ pulled, node ∈ nodes) (hneeding : ∀ node, frame.scope.Needing nodes node)
    (e : GraphError) : ending ≠ .error (.graph e) := by
  intro hending
  cases h.faulty hids hpulled hneeding e hending with
  | unregistered hnode hunregistered =>
    exact absurd (hregistered _ hnode) (Bool.eq_false_iff.mp hunregistered)
  | cyclic hnode hcycle => exact hacyclic.not_transGen_needs hnode hcycle

end Engine

/-- A cycle that is told of is real. Where validation of components with distinct ids rejects them
for a component, that one leads back to itself along the edges among them. Where a run in a fresh
scope ends with such an error, or resolving one of its components in a fresh scope does, the
component depends on itself, directly or not. -/
theorem cyclicDependency_on_cycle (nodes : List Node) (id : String) :
    ((nodes.map Node.id).Nodup → ∀ (tree : Tree) (registry : Registry),
      validate tree registry nodes = .error (.cyclicDependency id) →
        ∃ node ∈ nodes, node.id = id ∧ TransGen (Feeds nodes) node node) ∧
    (Identified nodes → ∀ (engine : Engine) (branches : Branches) (env : Environment)
      (world : World),
      (engine.runNodes branches nodes env { world }).1 = .error (.graph (.cyclicDependency id)) ∨
        (∃ target ∈ nodes, (engine.runNode branches nodes env target { world }).1 =
          .error (.graph (.cyclicDependency id))) →
        ∃ node ∈ nodes, node.id = id ∧ TransGen (Needs nodes) node node) := by
  constructor
  · intro hnodup tree registry herror
    cases Validation.faulty_of_validate hnodup herror with
    | cyclic _ _ hnode hcycle => exact ⟨_, hnode, rfl, hcycle⟩
  · intro hids engine branches env world hends
    have hfresh : ∀ node, Scope.Needing nodes {} node := fun _ => List.forall_mem_nil _
    have hfaulty : engine.Faulty nodes (.cyclicDependency id) := by
      obtain hends | ⟨target, htarget, hends⟩ := hends
      · obtain ⟨attempts, hpulls⟩ := engine.pulls_runNodes branches nodes env { world }
        exact hpulls.faulty hids (fun _ => mem_of_mem_terminals) hfresh _ hends
      · obtain ⟨attempts, hresolves⟩ := Engine.resolves_runNode
          (rfl : engine.runNode branches nodes env target { world } = _)
        exact hresolves.faulty hids htarget (hfresh target) _ hends
    cases hfaulty with
    | cyclic hnode hcycle => exact ⟨_, hnode, rfl, hcycle⟩

/-- Validation and the run of the entangled components both tell of `c`. -/
theorem cyclicDependency_on_cycle_entangled :
    (Sample.entangled.map Node.id).Nodup ∧ Identified Sample.entangled ∧
      validate Tree.empty Sample.registry Sample.entangled = .error (.cyclicDependency "c") ∧
      Sample.entangledRun.1 = .error (.graph (.cyclicDependency "c")) ∧
      (∃ node ∈ Sample.entangled, node.id = "c" ∧ TransGen (Feeds Sample.entangled) node node) ∧
      ∃ node ∈ Sample.entangled, node.id = "c" ∧ TransGen (Needs Sample.entangled) node node := by
  have hnodup : (Sample.entangled.map Node.id).Nodup := by decide
  have hids := identified_of_nodup hnodup
  have hrejected : validate Tree.empty Sample.registry Sample.entangled =
      .error (.cyclicDependency "c") := by decide +kernel
  have hended : Sample.entangledRun.1 = .error (.graph (.cyclicDependency "c")) := rfl
  obtain ⟨hedges, hdependencies⟩ := cyclicDependency_on_cycle Sample.entangled "c"
  exact ⟨hnodup, hids, hrejected, hended, hedges hnodup _ _ hrejected,
    hdependencies hids _ _ _ _ (.inl hended)⟩

end Workflow
