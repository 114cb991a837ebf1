import Mathlib.Logic.Relation
import Workflow.Proofs.Run.Once

namespace Workflow

open Relation

variable {nodes : List Node}

/-- A component depends on another one of the run. -/
def Needs (nodes : List Node) (target producer : Node) : Prop :=
  ∃ label, (producer, label) ∈ dependencies target nodes

/-- A component lies on a cycle of dependencies, or depends on one that does. -/
def Doomed (nodes : List Node) (node : Node) : Prop :=
  ∃ other, ReflTransGen (Needs nodes) node other ∧ TransGen (Needs nodes) other other

/-- A doomed component depends on a doomed one. -/
theorem Doomed.exists_dependency {node : Node} (h : Doomed nodes node) :
    ∃ dependency ∈ dependencies node nodes, Doomed nodes dependency.1 := by
  obtain ⟨other, hpath, hcycle⟩ := h
  obtain rfl | ⟨producer, ⟨label, hmem⟩, hrest⟩ := hpath.cases_head
  · obtain ⟨producer, ⟨label, hmem⟩, hback⟩ := TransGen.head'_iff.mp hcycle
    exact ⟨(producer, label), hmem, node, hback, hcycle⟩
  · exact ⟨(producer, label), hmem, other, hrest, hcycle⟩

/-- Every component that is being resolved needs this one, directly or not. -/
def Scope.Needing (nodes : List Node) (scope : Scope) (node : Node) : Prop :=
  ∀ id ∈ scope.resolving, ∃ other ∈ nodes, other.id = id ∧ TransGen (Needs nodes) other node

/-- What is being resolved also needs the dependencies of the component that is entered. -/
theorem Scope.Needing.enter {scope : Scope} {node : Node} {dependency : Node × String}
    (hneeding : scope.Needing nodes node) (hnode : node ∈ nodes)
    (hmem : dependency ∈ dependencies node nodes) :
    (scope.enter node.id).Needing nodes dependency.1 := by
  intro id hid
  obtain rfl | hid := List.mem_cons.mp hid
  · exact ⟨node, hnode, rfl, .single ⟨dependency.2, hmem⟩⟩
  · obtain ⟨other, hother, hsame, hpath⟩ := hneeding id hid
    exact ⟨other, hother, hsame, hpath.tail ⟨dependency.2, hmem⟩⟩

/-- A component that is met again is on a cycle of dependencies. -/
theorem Scope.Needing.transGen_self {scope : Scope} {node : Node}
    (hneeding : scope.Needing nodes node) (hids : Identified nodes) (hnode : node ∈ nodes)
    (hresolving : node.id ∈ scope.resolving) : TransGen (Needs nodes) node node := by
  obtain ⟨other, hother, hid, hpath⟩ := hneeding node.id hresolving
  rwa [hids other hother node hnode hid] at hpath

/-- A component that is not doomed is not met again. -/
theorem Scope.Needing.idle {scope : Scope} {node : Node} (hneeding : scope.Needing nodes node)
    (hids : Identified nodes) (hnode : node ∈ nodes) (hsafe : ¬ Doomed nodes node) :
    node.id ∉ scope.resolving :=
  fun hresolving => hsafe ⟨node, .refl, hneeding.transGen_self hids hnode hresolving⟩

/-- No component among the chosen ones is started or recorded. -/
def Scope.Avoids (nodes : List Node) (chosen : Node → Prop) (scope : Scope) : Prop :=
  ∀ node ∈ nodes, chosen node →
    node.id ∉ scope.started ∧ node.id ∉ scope.records.map Record.id

theorem Scope.Avoids.empty {chosen : Node → Prop} : Scope.Avoids nodes chosen {} := by
  intro node _ _
  exact ⟨nofun, nofun⟩

/-- No doomed component is started or recorded. -/
def Scope.Spares (nodes : List Node) (scope : Scope) : Prop := scope.Avoids nodes (Doomed nodes)

theorem Scope.Spares.empty : Scope.Spares nodes {} := Scope.Avoids.empty

namespace Engine

variable {engine : Engine} {branches : Branches} {env : Environment}

/-- Executing a component that is not among the chosen ones avoids those. -/
theorem Executes.avoids {chosen : Node → Prop} {node : Node} {frame after : Frame}
    {ending : Ending FlowError Resolution}
    (h : Executes engine branches node env frame ending after) (hids : Identified nodes)
    (hindexed : frame.scope.Indexed) (hnew : frame.scope.get? node.id = none) (hnode : node ∈ nodes)
    (hother : ¬ chosen node) (havoids : frame.scope.Avoids nodes chosen) :
    after.scope.Avoids nodes chosen := by
  obtain ⟨new, broken, hrecords, hstarted, hown, hbroken, _⟩ := h.adds hindexed hnew
  intro other hmem hchosen
  obtain ⟨hidle, hunrecorded⟩ := havoids other hmem hchosen
  have hne : other.id ≠ node.id := fun heq => hother (hids other hmem node hnode heq ▸ hchosen)
  have hnotNew : other.id ∉ new.map Record.id := by
    intro hnew
    obtain ⟨record, hrecord, hid⟩ := List.mem_map.mp hnew
    exact hne (hid.symm.trans (hown record hrecord))
  rw [hstarted, hrecords, List.map_append]
  simp only [List.mem_append, not_or]
  exact ⟨⟨⟨hidle, hnotNew⟩, fun h => hne (hbroken _ h)⟩, hunrecorded, hnotNew⟩

mutual

/-- Resolving spares the doomed components. A doomed one comes to no answer unless another
component has set a return value: it would need one from a doomed component first. -/
theorem Resolves.spares {node : Node} {frame after : Frame} {attempts : List Attempt}
    {ending : Ending FlowError Resolution}
    (h : Resolves engine branches nodes env node frame attempts ending after)
    (hids : Identified nodes) (hindexed : frame.scope.Indexed) (hnode : node ∈ nodes)
    (hspares : frame.scope.Spares nodes) :
    after.scope.Spares nodes ∧
      (Doomed nodes node → ending ≠ .ok .unreached ∧ ∀ record, ending ≠ .ok (.reached record)) := by
  match h with
  | .unregistered _ => exact ⟨hspares, fun _ => ⟨nofun, nofun⟩⟩
  | .recorded _ hrecord =>
    refine ⟨hspares, fun hdoomed => ?_⟩
    obtain ⟨hmem, hid⟩ := hindexed.get?_eq_some_iff.mp hrecord
    exact absurd (List.mem_map.mpr ⟨_, hmem, hid⟩) (hspares node hnode hdoomed).2
  | .cyclic _ _ _ => exact ⟨hspares, fun _ => ⟨nofun, nofun⟩⟩
  | .halted _ hgathers =>
    obtain ⟨hbetween, _⟩ := hgathers.spares hids (hindexed.enter node.id)
      (fun _ => mem_of_mem_dependencies) hspares
    exact ⟨hbetween, fun _ => ⟨Halt.ending_ne_ok _ _, fun _ => Halt.ending_ne_ok _ _⟩⟩
  | .returned _ hgathers =>
    obtain ⟨hbetween, _⟩ := hgathers.spares hids (hindexed.enter node.id)
      (fun _ => mem_of_mem_dependencies) hspares
    exact ⟨hbetween, fun _ => ⟨nofun, nofun⟩⟩
  | .unreached _ hgathers _ =>
    obtain ⟨hbetween, hready⟩ := hgathers.spares hids (hindexed.enter node.id)
      (fun _ => mem_of_mem_dependencies) hspares
    exact ⟨hbetween, fun hdoomed => absurd rfl (hready hdoomed.exists_dependency _ _)⟩
  | .executed henters hgathers _ hexecutes =>
    obtain ⟨hbetween, hready⟩ := hgathers.spares hids (hindexed.enter node.id)
      (fun _ => mem_of_mem_dependencies) hspares
    have hsafe : ¬ Doomed nodes node := fun hdoomed => hready hdoomed.exists_dependency _ _ rfl
    obtain ⟨hbetweenIndexed, hnew⟩ := hgathers.unrecorded hindexed henters
    have hafter := hexecutes.avoids hids hbetweenIndexed hnew hnode hsafe hbetween
    exact ⟨hafter, fun hdoomed => absurd hdoomed hsafe⟩

/-- Gathering spares the doomed components, and is not ready if one of them is needed. -/
theorem Gathers.spares {needed : List (Node × String)} {result : Json} {fired : Bool}
    {frame after : Frame} {attempts : List Attempt} {ending : Ending FlowError Gathered}
    (h : Gathers engine branches nodes env needed result fired frame attempts ending after)
    (hids : Identified nodes) (hindexed : frame.scope.Indexed)
    (hneeded : ∀ dependency ∈ needed, dependency.1 ∈ nodes)
    (hspares : frame.scope.Spares nodes) :
    after.scope.Spares nodes ∧
      ((∃ dependency ∈ needed, Doomed nodes dependency.1) →
        ∀ last any, ending ≠ .ok (.ready last any)) := by
  match h with
  | .done => exact ⟨hspares, nofun⟩
  | .halted hresolves =>
    obtain ⟨hproducer, _⟩ := List.forall_mem_cons.mp hneeded
    obtain ⟨hafter, _⟩ := hresolves.spares hids hindexed hproducer hspares
    exact ⟨hafter, fun _ _ _ => Halt.ending_ne_ok _ _⟩
  | .returned hresolves =>
    obtain ⟨hproducer, _⟩ := List.forall_mem_cons.mp hneeded
    obtain ⟨hafter, _⟩ := hresolves.spares hids hindexed hproducer hspares
    exact ⟨hafter, fun _ => nofun⟩
  | .unreached hresolves hrest =>
    obtain ⟨hproducer, hothers⟩ := List.forall_mem_cons.mp hneeded
    obtain ⟨hbetween, hanswer⟩ := hresolves.spares hids hindexed hproducer hspares
    obtain ⟨hafter, hready⟩ := hrest.spares hids (hresolves.indexed hindexed) hothers hbetween
    refine ⟨hafter, fun hdoomed => ?_⟩
    rw [List.exists_mem_cons_iff] at hdoomed
    exact hdoomed.elim (fun h => absurd rfl (hanswer h).1) hready
  | .ended hresolves _ =>
    obtain ⟨hproducer, _⟩ := List.forall_mem_cons.mp hneeded
    obtain ⟨hafter, _⟩ := hresolves.spares hids hindexed hproducer hspares
    exact ⟨hafter, fun _ => nofun⟩
  | .reached hresolves _ hrest =>
    obtain ⟨hproducer, hothers⟩ := List.forall_mem_cons.mp hneeded
    obtain ⟨hbetween, hanswer⟩ := hresolves.spares hids hindexed hproducer hspares
    obtain ⟨hafter, hready⟩ := hrest.spares hids (hresolves.indexed hindexed) hothers hbetween
    refine ⟨hafter, fun hdoomed => ?_⟩
    rw [List.exists_mem_cons_iff] at hdoomed
    exact hdoomed.elim (fun h => absurd rfl ((hanswer h).2 _)) hready

end

/-- A run spares the doomed components. -/
theorem Pulls.spares {pulled : List Node} {frame after : Frame} {attempts : List Attempt}
    {ending : Ending FlowError (Option Json)}
    (h : Pulls engine branches nodes env pulled frame attempts ending after)
    (hids : Identified nodes) (hindexed : frame.scope.Indexed)
    (hpulled : ∀ node ∈ pulled, node ∈ nodes) (hspares : frame.scope.Spares nodes) :
    after.scope.Spares nodes := by
  induction h with
  | done => exact hspares
  | halted hresolves =>
    exact (hresolves.spares hids hindexed (List.forall_mem_cons.mp hpulled).1 hspares).1
  | returned hresolves =>
    exact (hresolves.spares hids hindexed (List.forall_mem_cons.mp hpulled).1 hspares).1
  | ended hresolves _ =>
    exact (hresolves.spares hids hindexed (List.forall_mem_cons.mp hpulled).1 hspares).1
  | unreached hresolves _ ih =>
    obtain ⟨hnode, hothers⟩ := List.forall_mem_cons.mp hpulled
    exact ih (hresolves.indexed hindexed) hothers (hresolves.spares hids hindexed hnode hspares).1
  | reached hresolves _ _ ih =>
    obtain ⟨hnode, hothers⟩ := List.forall_mem_cons.mp hpulled
    exact ih (hresolves.indexed hindexed) hothers (hresolves.spares hids hindexed hnode hspares).1

/-- The block of a component comes to an end of its own, whatever its environment and the world. -/
def Ends (engine : Engine) (branches : Branches) (node : Node) : Prop :=
  ∀ block, engine.registry.create node = .ok block → ∀ env world,
    (block (engine.context branches node env) world).1.Completes

/-- Executing a component ends if its block does. -/
theorem Executes.completes {node : Node} {frame after : Frame}
    {ending : Ending FlowError Resolution}
    (h : Executes engine branches node env frame ending after) (hends : engine.Ends branches node) :
    ending.Completes := by
  cases h with
  | uncreated _ => trivial
  | succeeded _ _ => trivial
  | contained _ _ _ => trivial
  | failed _ _ _ => trivial
  | crashed hcreate hblock =>
    have hcompletes := hends _ hcreate env (frame.world.note (.started node.id node.type))
    rwa [hblock] at hcompletes
  | tooDeep hcreate hblock =>
    have hcompletes := hends _ hcreate env (frame.world.note (.started node.id node.type))
    rwa [hblock] at hcompletes

mutual

/-- Resolving ends wherever every block does. -/
theorem Resolves.completes {node : Node} {frame after : Frame} {attempts : List Attempt}
    {ending : Ending FlowError Resolution}
    (h : Resolves engine branches nodes env node frame attempts ending after)
    (hends : ∀ node ∈ nodes, engine.Ends branches node) (hnode : node ∈ nodes) :
    ending.Completes := by
  match h with
  | .unregistered _ => trivial
  | .recorded _ _ => trivial
  | .cyclic _ _ _ => trivial
  | .halted _ hgathers =>
    exact Halt.completes_ending (hgathers.completes hends fun _ => mem_of_mem_dependencies)
  | .returned _ _ => trivial
  | .unreached _ _ _ => trivial
  | .executed _ _ _ hexecutes => exact hexecutes.completes (hends node hnode)

theorem Gathers.completes {needed : List (Node × String)} {result : Json} {fired : Bool}
    {frame after : Frame} {attempts : List Attempt} {ending : Ending FlowError Gathered}
    (h : Gathers engine branches nodes env needed result fired frame attempts ending after)
    (hends : ∀ node ∈ nodes, engine.Ends branches node)
    (hneeded : ∀ dependency ∈ needed, dependency.1 ∈ nodes) : ending.Completes := by
  match h with
  | .done => trivial
  | .halted hresolves =>
    exact Halt.completes_ending (hresolves.completes hends (List.forall_mem_cons.mp hneeded).1)
  | .returned _ => trivial
  | .unreached _ hrest => exact hrest.completes hends (List.forall_mem_cons.mp hneeded).2
  | .ended _ _ => trivial
  | .reached _ _ hrest => exact hrest.completes hends (List.forall_mem_cons.mp hneeded).2

end

/-- A run ends wherever every block does. -/
theorem Pulls.completes {pulled : List Node} {frame after : Frame} {attempts : List Attempt}
    {ending : Ending FlowError (Option Json)}
    (h : Pulls engine branches nodes env pulled frame attempts ending after)
    (hends : ∀ node ∈ nodes, engine.Ends branches node)
    (hpulled : ∀ node ∈ pulled, node ∈ nodes) : ending.Completes := by
  induction h with
  | done => trivial
  | halted hresolves =>
    exact Halt.completes_ending (hresolves.completes hends (List.forall_mem_cons.mp hpulled).1)
  | returned _ => trivial
  | ended _ _ => trivial
  | unreached _ _ ih => exact ih (List.forall_mem_cons.mp hpulled).2
  | reached _ _ _ ih => exact ih (List.forall_mem_cons.mp hpulled).2

/-- A run of components in a fresh scope comes to an end if each of their blocks does, even where
dependencies have cycles. However it ends, it neither starts nor records a component that lies on a
cycle of dependencies or depends on one that does, directly or not. -/
theorem runNodes_spares_cycles (hids : Identified nodes) (engine : Engine) (branches : Branches)
    (env : Environment) (world : World) :
    let run := engine.runNodes branches nodes env { world }
    ((∀ node ∈ nodes, engine.Ends branches node) → run.1.Completes) ∧
    ∀ node ∈ nodes, ∀ other,
      ReflTransGen (Needs nodes) node other → TransGen (Needs nodes) other other →
        node.id ∉ run.2.scope.started ∧ node.id ∉ run.2.scope.records.map Record.id := by
  intro run
  obtain ⟨attempts, hpulls⟩ := engine.pulls_runNodes branches nodes env { world }
  have hterminals : ∀ node ∈ terminals nodes, node ∈ nodes := fun _ => mem_of_mem_terminals
  refine ⟨fun hends => hpulls.completes hends hterminals, ?_⟩
  intro node hnode other hpath hcycle
  exact hpulls.spares hids .empty hterminals .empty node hnode ⟨other, hpath, hcycle⟩

end Engine

/-- The components `b` and `c` wait for each other, and `d` waits for `a` and for `c`. -/
def Sample.entangled : List Node :=
  [{ id := "a", type := "scripted", parent? := some "w", outs := [⟨"success", "d"⟩] },
   { id := "b", type := "scripted", parent? := some "w", outs := [⟨"success", "c"⟩] },
   { id := "c", type := "scripted", parent? := some "w"
     outs := [⟨"success", "b"⟩, ⟨"success", "d"⟩] },
   { id := "d", type := "scripted", parent? := some "w" }]

/-- A run of the entangled components. -/
def Sample.entangledRun : Ending FlowError (Option Json) × Frame :=
  Sample.runner.runNodes Sample.runner.nested Sample.entangled .empty {}

theorem Sample.ends_entangled (branches : Branches) :
    ∀ node ∈ Sample.entangled, Sample.runner.Ends branches node := by
  intro node hnode block hcreate env world
  simp only [Sample.entangled, List.mem_cons, List.not_mem_nil, or_false] at hnode
  rcases hnode with rfl | rfl | rfl | rfl <;>
  · obtain rfl : Scripted.block = block := Except.ok.inj hcreate
    trivial

/-- The run starts `a` alone and fails when `c` is met again. -/
theorem Engine.runNodes_spares_cycles_entangled :
    Identified Sample.entangled ∧
      (∀ node ∈ Sample.entangled, Sample.runner.Ends Sample.runner.nested node) ∧
      Sample.entangledRun.1 = .error (.graph (.cyclicDependency "c")) ∧
      Sample.entangledRun.1.Completes ∧
      Sample.entangledRun.2.scope.records.map Record.id = ["a"] ∧
      ∀ node ∈ Sample.entangled, ∀ other,
        ReflTransGen (Needs Sample.entangled) node other →
        TransGen (Needs Sample.entangled) other other →
          node.id ∉ Sample.entangledRun.2.scope.started ∧
            node.id ∉ Sample.entangledRun.2.scope.records.map Record.id := by
  have hids : Identified Sample.entangled := identified_of_nodup (by decide)
  have hends := Sample.ends_entangled Sample.runner.nested
  obtain ⟨hcompletes, hspares⟩ :=
    Engine.runNodes_spares_cycles hids Sample.runner.toEngine Sample.runner.nested .empty {}
  exact ⟨hids, hends, rfl, hcompletes hends, by decide +kernel, hspares⟩

end Workflow
