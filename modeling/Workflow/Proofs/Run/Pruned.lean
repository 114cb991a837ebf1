import Workflow.Proofs.Run.Cycles
import Workflow.Proofs.Run.Invariant
import Workflow.Proofs.Run.Reached

namespace Workflow

open Relation

variable {nodes : List Node} {known : String → Bool} {records new : List Record}

/-- A component has a record, and that has no return value. -/
def Passed (records : List Record) (node : Node) : Prop :=
  ∃ record ∈ records, record.id = node.id ∧ record.returned? = none

theorem Passed.recorded {node : Node} (h : Passed records node) : Recorded records node := by
  obtain ⟨record, hrecord, hid, _⟩ := h
  exact ⟨record, hrecord, hid⟩

theorem Passed.append {node : Node} (h : Passed records node) (new : List Record) :
    Passed (records ++ new) node := by
  obtain ⟨record, hrecord, hpassed⟩ := h
  exact ⟨record, List.mem_append_left new hrecord, hpassed⟩

/-- No edge to the component can be followed any more: what it depends on has passed on other
outcomes, or is pruned itself. The definition is inductive, so that components which only wait for
each other are not pruned. -/
inductive Pruned (nodes : List Node) (known : String → Bool) (records : List Record) :
    Node → Prop where
  | intro {node : Node} (hknown : known node.type = true) (hnew : ¬ Recorded records node)
      (hneeded : dependencies node nodes ≠ [])
      (hmissed : ∀ dependency ∈ dependencies node nodes, ¬ Followed records dependency)
      (hpruned : ∀ dependency ∈ dependencies node nodes, ¬ Passed records dependency.1 →
        Pruned nodes known records dependency.1) :
      Pruned nodes known records node

/-- What became of a component cannot change any more: it has passed, or it is pruned. -/
def Decided (nodes : List Node) (known : String → Bool) (records : List Record) (node : Node) :
    Prop :=
  Passed records node ∨ Pruned nodes known records node

namespace Pruned

theorem unrecorded {node : Node} (h : Pruned nodes known records node) :
    ¬ Recorded records node := by
  cases h with
  | intro _ hnew _ _ _ => exact hnew

/-- A pruned component stays pruned: every later record is of a component that fires, and for this
one an edge would have to be followed from a component that is decided already. So the decision is
not stored, but it is made again in the same way. -/
theorem append {node : Node} (h : Pruned nodes known records node) (hids : Identified nodes)
    (hnode : node ∈ nodes) (hjustified : Justified nodes (records ++ new))
    (hnodup : ((records ++ new).map Record.id).Nodup) : Pruned nodes known (records ++ new) node := by
  induction h with
  | @intro node hknown hnew hneeded hmissed _ ih =>
    have hstill : ∀ dependency ∈ dependencies node nodes,
        ¬ Followed (records ++ new) dependency := by
      rintro dependency hmem ⟨record, hrecord, hid, houtcome⟩
      by_cases hpassed : Passed records dependency.1
      · have hold := mem_of_recorded hnodup hrecord hid hpassed.recorded
        exact hmissed dependency hmem ⟨record, hold, hid, houtcome⟩
      · have hpruned := ih dependency hmem hpassed (mem_of_mem_dependencies hmem)
        exact hpruned.unrecorded ⟨record, hrecord, hid⟩
    refine .intro hknown ?_ hneeded hstill ?_
    · intro hrecorded
      obtain hfree | ⟨dependency, hmem, hfollowed⟩ := hjustified.fires hids hnode hrecorded
      · exact hneeded hfree
      · exact hstill dependency hmem hfollowed
    · intro dependency hmem hpassed
      exact ih dependency hmem (fun h => hpassed (h.append new)) (mem_of_mem_dependencies hmem)

/-- A pruned component neither lies on a cycle of dependencies nor depends on one. -/
theorem not_doomed {node : Node} (h : Pruned nodes known records node)
    (hspared : ∀ node ∈ nodes, Doomed nodes node → ¬ Recorded records node) :
    ¬ Doomed nodes node := by
  induction h with
  | intro _ _ _ _ _ ih =>
    intro hdoomed
    obtain ⟨dependency, hmem, hdoomed⟩ := hdoomed.exists_dependency
    have hunrecorded := hspared dependency.1 (mem_of_mem_dependencies hmem) hdoomed
    exact ih dependency hmem (fun hpassed => hunrecorded hpassed.recorded) hdoomed

end Pruned

/-- What holds of a scope whatever is resolved in it, even where edges have cycles: each record is of
a component of a known type that fired when all that it depends on was decided. -/
structure Scope.Timely (nodes : List Node) (known : String → Bool) (scope : Scope) : Prop where
  indexed : scope.Indexed
  spares : scope.Spares nodes
  justified : Justified nodes scope.records
  registered : ∀ node ∈ nodes, Recorded scope.records node → known node.type = true
  decided : ∀ i record, scope.records[i]? = some record →
    ∀ node ∈ nodes, node.id = record.id →
      ∀ dependency ∈ dependencies node nodes,
        Decided nodes known (scope.records.take i) dependency.1

theorem Scope.Avoids.not_recorded {chosen : Node → Prop} {scope : Scope}
    (h : scope.Avoids nodes chosen) :
    ∀ node ∈ nodes, chosen node → ¬ Recorded scope.records node := by
  rintro node hnode hchosen ⟨record, hrecord, hid⟩
  exact (h node hnode hchosen).2 (List.mem_map.mpr ⟨record, hrecord, hid⟩)

namespace Scope.Timely

theorem empty : Timely nodes known {} :=
  ⟨.empty, .empty, .nil, fun _ _ ⟨_, hrecord, _⟩ => (List.not_mem_nil hrecord).elim,
    fun _ _ hrecord => nomatch hrecord⟩

/-- Which components are being resolved does not matter. -/
theorem of_records {before after : Scope} (h : before.Timely nodes known) (hindexed : after.Indexed)
    (hspares : after.Spares nodes) (hrecords : after.records = before.records) :
    after.Timely nodes known := by
  refine ⟨hindexed, hspares, ?_, ?_, ?_⟩ <;> rw [hrecords]
  · exact h.justified
  · exact h.registered
  · exact h.decided

theorem enter {scope : Scope} (h : scope.Timely nodes known) (id : String) :
    (scope.enter id).Timely nodes known :=
  h.of_records (h.indexed.enter id) h.spares rfl

theorem leave {scope : Scope} (h : scope.Timely nodes known) (id : String) :
    (scope.leave id).Timely nodes known :=
  h.of_records (h.indexed.leave id) h.spares rfl

/-- In a timely scope no doomed component has a record. -/
theorem spared {scope : Scope} (h : scope.Timely nodes known) :
    ∀ node ∈ nodes, Doomed nodes node → ¬ Recorded scope.records node :=
  Avoids.not_recorded h.spares

/-- Recording a component of a known type that fires, after all it depends on was decided. -/
theorem snoc {before after : Scope} (h : before.Timely nodes known) (hids : Identified nodes)
    {node : Node} {record : Record} (hnode : node ∈ nodes) (hid : record.id = node.id)
    (hknown : known node.type = true)
    (hneeded : ∀ dependency ∈ dependencies node nodes,
      Decided nodes known before.records dependency.1)
    (hfires : Fires nodes before.records node) (hindexed : after.Indexed)
    (hspares : after.Spares nodes) (hrecords : after.records = before.records ++ [record]) :
    after.Timely nodes known := by
  refine ⟨hindexed, hspares, ?_, ?_, ?_⟩ <;> rw [hrecords]
  · exact h.justified.snoc hnode hid hfires
  · rintro other hother ⟨found, hfound, hfoundId⟩
    obtain hold | hlast := List.mem_append.mp hfound
    · exact h.registered other hother ⟨found, hold, hfoundId⟩
    · obtain rfl := List.mem_singleton.mp hlast
      obtain rfl := hids node hnode other hother (hid.symm.trans hfoundId)
      exact hknown
  · refine forall_take_snoc (P := fun earlier record => ∀ node ∈ nodes, node.id = record.id →
      ∀ dependency ∈ dependencies node nodes, Decided nodes known earlier dependency.1) h.decided ?_
    intro other hother hotherId dependency hmem
    obtain rfl := hids node hnode other hother (hid.symm.trans hotherId.symm)
    exact hneeded dependency hmem

/-- What was pruned before a scope grew is pruned in it. -/
theorem pruned {scope : Scope} (h : scope.Timely nodes known) (hids : Identified nodes)
    (hgrows : records <+: scope.records) {node : Node} (hnode : node ∈ nodes)
    (hpruned : Pruned nodes known records node) : Pruned nodes known scope.records node := by
  obtain ⟨new, hrecords⟩ := hgrows
  have hjustified := h.justified
  have hnodup := h.indexed.nodup
  rw [← hrecords] at hjustified hnodup ⊢
  exact hpruned.append hids hnode hjustified hnodup

/-- A recorded component comes after each recorded one that it depends on. -/
theorem lt_of_dependency {scope : Scope} (h : scope.Timely nodes known) (hids : Identified nodes)
    {target : Node} {dependency : Node × String} (htarget : target ∈ nodes)
    (hmem : dependency ∈ dependencies target nodes) {i j : Nat} {first second : Record}
    (hfirst : scope.records[i]? = some first) (hsecond : scope.records[j]? = some second)
    (hfirstId : first.id = dependency.1.id) (hsecondId : second.id = target.id) : i < j := by
  obtain hpassed | hpruned := h.decided j second hsecond target htarget hsecondId.symm dependency hmem
  · obtain ⟨earlier, hearlier, hid⟩ := hpassed.recorded
    have hold := List.mem_of_mem_take hearlier
    obtain rfl := List.inj_on_of_nodup_map h.indexed.nodup hold (List.mem_of_getElem? hfirst)
      (hid.trans hfirstId.symm)
    obtain ⟨k, hk, hat⟩ := List.mem_take_iff_getElem.mp hearlier
    have hposition : scope.index.find? earlier.id = some k :=
      (h.indexed earlier.id k).mpr (by rw [List.getElem?_eq_getElem (by omega), hat]; rfl)
    rw [(h.indexed earlier.id i).mpr (by rw [hfirst]; rfl)] at hposition
    cases hposition
    omega
  · have hstill := h.pruned hids (List.take_prefix j _) (mem_of_mem_dependencies hmem) hpruned
    exact absurd ⟨first, List.mem_of_getElem? hfirst, hfirstId⟩ hstill.unrecorded

end Scope.Timely

/-- The result of the last dependency that has a record, or `default` if none has one. -/
def latestResult (records : List Record) (needed : List (Node × String)) (default : Json) : Json :=
  ((needed.filterMap fun dependency => records.find? (·.id == dependency.1.id)).getLast?.map
    Record.result).getD default

/-- A dependency without a record leaves the result as it was. -/
theorem latestResult_cons_of_unrecorded {dependency : Node × String} {rest : List (Node × String)}
    {default : Json} (h : ¬ Recorded records dependency.1) :
    latestResult records (dependency :: rest) default = latestResult records rest default := by
  have hnone : records.find? (·.id == dependency.1.id) = none := by
    rw [List.find?_eq_none]
    intro record hrecord hid
    exact h ⟨record, hrecord, eq_of_beq hid⟩
  simp only [latestResult, List.filterMap_cons, hnone]

/-- A dependency with a record brings its own result. -/
theorem latestResult_cons_of_mem {dependency : Node × String} {rest : List (Node × String)}
    {default : Json} {record : Record} (hnodup : (records.map Record.id).Nodup)
    (hrecord : record ∈ records) (hid : record.id = dependency.1.id) :
    latestResult records (dependency :: rest) default =
      latestResult records rest record.result := by
  have hsome : records.find? (·.id == dependency.1.id) = some record := by
    obtain ⟨found, hfound⟩ : ∃ found, records.find? (·.id == dependency.1.id) = some found := by
      rw [← Option.isSome_iff_exists, List.find?_isSome]
      exact ⟨record, hrecord, beq_iff_eq.mpr hid⟩
    have hfoundId : found.id = dependency.1.id := by simpa using List.find?_some hfound
    rw [hfound]
    exact congrArg some (List.inj_on_of_nodup_map hnodup (List.mem_of_find?_eq_some hfound) hrecord
      (hfoundId.trans hid.symm))
  simp only [latestResult, List.filterMap_cons, hsome, List.getLast?_cons, Option.map_some,
    Option.getD_some]
  cases (rest.filterMap fun dependency => records.find? (·.id == dependency.1.id)).getLast? <;> rfl

namespace Engine

variable {engine : Engine} {branches : Branches} {env : Environment}

/-- The record that a component is resolved with is one of the scope. -/
theorem Resolves.mem_records {node : Node} {frame after : Frame} {attempts : List Attempt}
    {ending : Ending FlowError Resolution} {record : Record}
    (h : Resolves engine branches nodes env node frame attempts ending after)
    (hindexed : frame.scope.Indexed) (hending : ending = .ok (.reached record)) :
    record ∈ after.scope.records ∧ record.id = node.id := by
  match h with
  | .unregistered _ => cases hending
  | .recorded _ hrecord =>
    cases hending
    exact hindexed.get?_eq_some_iff.mp hrecord
  | .cyclic _ _ _ => cases hending
  | .halted _ _ => exact absurd hending (Halt.ending_ne_ok _ _)
  | .returned _ _ => cases hending
  | .unreached _ _ _ => cases hending
  | .executed henters hgathers _ hexecutes =>
    obtain ⟨hbetween, hnew⟩ := hgathers.unrecorded hindexed henters
    obtain ⟨_, ⟨stored, hleaves, hrecords, _, hstored | ⟨_, e, herror⟩⟩ | ⟨halt, _, hhalt, _⟩⟩ :=
      hexecutes.appends hbetween hnew
    · obtain rfl : stored = record := by
        rw [hending] at hstored
        cases hstored
        rfl
      rw [Frame.leave, Scope.records_leave, hrecords]
      exact ⟨List.mem_append_right _ List.mem_cons_self, hleaves.id_eq⟩
    · rw [hending] at herror
      cases herror
    · rw [hending] at hhalt
      exact absurd hhalt.symm (Halt.ending_ne_ok _ _)

theorem Resolves.records_prefix {node : Node} {frame after : Frame} {attempts : List Attempt}
    {ending : Ending FlowError Resolution}
    (h : Resolves engine branches nodes env node frame attempts ending after)
    (hindexed : frame.scope.Indexed) : frame.scope.records <+: after.scope.records := by
  obtain ⟨new, _, hadds, _⟩ := h.adds hindexed
  exact ⟨new, hadds.records.symm⟩

theorem Gathers.records_prefix {needed : List (Node × String)} {result : Json} {fired : Bool}
    {frame after : Frame} {attempts : List Attempt} {ending : Ending FlowError Gathered}
    (h : Gathers engine branches nodes env needed result fired frame attempts ending after)
    (hindexed : frame.scope.Indexed) : frame.scope.records <+: after.scope.records := by
  obtain ⟨new, _, hadds, _⟩ := h.adds hindexed
  exact ⟨new, hadds.records.symm⟩

private theorem Executes.timely {node : Node} {frame after : Frame}
    {ending : Ending FlowError Resolution}
    (h : Executes engine branches node env frame ending after) (hids : Identified nodes)
    (htimely : frame.scope.Timely nodes known) (hnode : node ∈ nodes)
    (hnew : frame.scope.get? node.id = none) (hknown : known node.type = true)
    (hneeded : ∀ dependency ∈ dependencies node nodes,
      Decided nodes known frame.scope.records dependency.1)
    (hfires : Fires nodes frame.scope.records node) (hspares : after.scope.Spares nodes) :
    after.scope.Timely nodes known ∧ ending ≠ .ok .unreached := by
  obtain ⟨hindexed, ⟨record, hleaves, hrecords, _, hending⟩ | ⟨halt, _, rfl, hrecords, _⟩⟩ :=
    h.appends htimely.indexed hnew
  · refine ⟨htimely.snoc hids hnode hleaves.id_eq hknown hneeded hfires hindexed hspares hrecords, ?_⟩
    obtain rfl | ⟨_, e, rfl⟩ := hending <;> simp
  · exact ⟨htimely.of_records hindexed hspares hrecords, Halt.ending_ne_ok _ _⟩

mutual

/-- Resolving a component of the run keeps the scope timely, and prunes the component if no edge to it
was followed. -/
theorem Resolves.timely {node : Node} {frame after : Frame} {attempts : List Attempt}
    {ending : Ending FlowError Resolution}
    (h : Resolves engine branches nodes env node frame attempts ending after)
    (hids : Identified nodes) (hknown : ∀ type, engine.registry.contains type = known type)
    (htimely : frame.scope.Timely nodes known) (hnode : node ∈ nodes) :
    after.scope.Timely nodes known ∧
      (ending = .ok .unreached → Pruned nodes known after.scope.records node) := by
  match h with
  | .unregistered _ => exact ⟨htimely, nofun⟩
  | .recorded _ _ => exact ⟨htimely, nofun⟩
  | .cyclic _ _ _ => exact ⟨htimely, nofun⟩
  | .halted _ hgathers =>
    obtain ⟨hbetween, _⟩ := hgathers.timely hids hknown (htimely.enter node.id)
      (fun _ => mem_of_mem_dependencies)
    exact ⟨hbetween.leave node.id, fun h => absurd h (Halt.ending_ne_ok _ _)⟩
  | .returned _ hgathers =>
    obtain ⟨hbetween, _⟩ := hgathers.timely hids hknown (htimely.enter node.id)
      (fun _ => mem_of_mem_dependencies)
    exact ⟨hbetween.leave node.id, nofun⟩
  | .unreached henters hgathers hneeded =>
    obtain ⟨hbetween, hready⟩ := hgathers.timely hids hknown (htimely.enter node.id)
      (fun _ => mem_of_mem_dependencies)
    obtain ⟨hdecided, hfired, _⟩ := hready _ _ rfl
    obtain ⟨hindexed, hunrecorded⟩ := hgathers.unrecorded htimely.indexed henters
    have hnew := hindexed.get?_eq_none_iff_not_recorded.mp hunrecorded
    refine ⟨hbetween.leave node.id, fun _ => .intro ?_ hnew hneeded ?_ ?_⟩
    · rw [← hknown]
      exact henters.registered
    · intro dependency hmem hfollowed
      exact nomatch hfired.mpr (Or.inr ⟨dependency, hmem, hfollowed⟩)
    · intro dependency hmem hpassed
      exact (hdecided dependency hmem).resolve_left hpassed
  | .executed henters hgathers hreached hexecutes =>
    obtain ⟨hbetween, hready⟩ := hgathers.timely hids hknown (htimely.enter node.id)
      (fun _ => mem_of_mem_dependencies)
    obtain ⟨hdecided, hfired, _⟩ := hready _ _ rfl
    obtain ⟨_, hnew⟩ := hgathers.unrecorded htimely.indexed henters
    have hregistered : known node.type = true := (hknown node.type).symm.trans henters.registered
    have hspares := ((Resolves.executed henters hgathers hreached hexecutes).spares hids
      htimely.indexed hnode htimely.spares).1
    obtain ⟨hafter, hunreached⟩ :=
      hexecutes.timely hids hbetween hnode hnew hregistered hdecided (.of_reached hreached hfired)
        hspares
    exact ⟨hafter.leave node.id, fun h => absurd h hunreached⟩

/-- Gathering keeps the scope timely, and what was gathered tells which edges are followed and what
the latest result is. -/
theorem Gathers.timely {needed : List (Node × String)} {result : Json} {fired : Bool}
    {frame after : Frame} {attempts : List Attempt} {ending : Ending FlowError Gathered}
    (h : Gathers engine branches nodes env needed result fired frame attempts ending after)
    (hids : Identified nodes) (hknown : ∀ type, engine.registry.contains type = known type)
    (htimely : frame.scope.Timely nodes known)
    (hneeded : ∀ dependency ∈ needed, dependency.1 ∈ nodes) :
    after.scope.Timely nodes known ∧
      ∀ last any, ending = .ok (.ready last any) →
        (∀ dependency ∈ needed, Decided nodes known after.scope.records dependency.1) ∧
        (any = true ↔
          fired = true ∨ ∃ dependency ∈ needed, Followed after.scope.records dependency) ∧
        last = latestResult after.scope.records needed result := by
  match h with
  | .done =>
    refine ⟨htimely, ?_⟩
    rintro _ _ ⟨⟩
    exact ⟨List.forall_mem_nil _, by simp, rfl⟩
  | .halted hresolves =>
    obtain ⟨hproducer, _⟩ := List.forall_mem_cons.mp hneeded
    exact ⟨(hresolves.timely hids hknown htimely hproducer).1,
      fun _ _ h => absurd h (Halt.ending_ne_ok _ _)⟩
  | .returned hresolves =>
    obtain ⟨hproducer, _⟩ := List.forall_mem_cons.mp hneeded
    exact ⟨(hresolves.timely hids hknown htimely hproducer).1, nofun⟩
  | .unreached hresolves hrest =>
    obtain ⟨hproducer, hothers⟩ := List.forall_mem_cons.mp hneeded
    obtain ⟨hbetween, hunreached⟩ := hresolves.timely hids hknown htimely hproducer
    obtain ⟨hafter, hready⟩ := hrest.timely hids hknown hbetween hothers
    have hpruned := hafter.pruned hids (hrest.records_prefix hbetween.indexed) hproducer
      (hunreached rfl)
    refine ⟨hafter, fun last any heq => ?_⟩
    obtain ⟨hdecided, hfired, hlast⟩ := hready last any heq
    refine ⟨List.forall_mem_cons.mpr ⟨Or.inr hpruned, hdecided⟩, any_followed_cons ?_ hfired, ?_⟩
    · have hunfollowed : ¬ Followed _ _ := fun h => hpruned.unrecorded h.recorded
      rw [or_iff_left hunfollowed]
    · rw [hlast]
      exact (latestResult_cons_of_unrecorded hpruned.unrecorded).symm
  | .ended hresolves _ =>
    obtain ⟨hproducer, _⟩ := List.forall_mem_cons.mp hneeded
    exact ⟨(hresolves.timely hids hknown htimely hproducer).1, nofun⟩
  | .reached hresolves hvalue hrest =>
    obtain ⟨hproducer, hothers⟩ := List.forall_mem_cons.mp hneeded
    obtain ⟨hbetween, _⟩ := hresolves.timely hids hknown htimely hproducer
    obtain ⟨hafter, hready⟩ := hrest.timely hids hknown hbetween hothers
    obtain ⟨hrecord, hid⟩ := hresolves.mem_records htimely.indexed rfl
    have hlater := (hrest.records_prefix hbetween.indexed).subset hrecord
    refine ⟨hafter, fun last any heq => ?_⟩
    obtain ⟨hdecided, hfired, hlast⟩ := hready last any heq
    refine ⟨List.forall_mem_cons.mpr ⟨Or.inl ⟨_, hlater, hid, hvalue⟩, hdecided⟩,
      any_followed_cons ?_ hfired, ?_⟩
    · rw [followed_iff_matches hafter.indexed.nodup hlater hid, Bool.or_eq_true]
    · rw [hlast]
      exact (latestResult_cons_of_mem hafter.indexed.nodup hlater hid).symm

end

/-- A component is executed only if it fires by the records that there are then. -/
theorem Gathers.fires {node : Node} {result : Json} {fired : Bool} {frame between : Frame}
    {attempts : List Attempt}
    (h : Gathers engine branches nodes env (dependencies node nodes) .null false
      (frame.enter node.id) attempts (.ok (.ready result fired)) between)
    (hids : Identified nodes) (htimely : frame.scope.Timely nodes engine.registry.contains)
    (hreached : dependencies node nodes = [] ∨ fired = true) :
    Fires nodes between.scope.records node := by
  obtain ⟨_, hready⟩ := h.timely hids (fun _ => rfl) (htimely.enter node.id)
    (fun _ => mem_of_mem_dependencies)
  obtain ⟨_, hfired, _⟩ := hready _ _ rfl
  exact .of_reached hreached hfired

/-- Every step of a run keeps its scope timely. -/
theorem keeps_timely (engine : Engine) (branches : Branches) (hids : Identified nodes)
    (env : Environment) :
    engine.Keeps branches nodes env fun frame =>
      frame.scope.Timely nodes engine.registry.contains where
  enter _ id h := h.enter id
  leave _ id h := h.leave id
  execute := by
    intro node frame between after attempts result fired ending hnode htimely _ henters hgathers
      hreached hexecutes
    obtain ⟨hindexed, hnew⟩ := hgathers.unrecorded htimely.indexed henters
    obtain ⟨hafter, _⟩ := (Resolves.executed henters hgathers hreached hexecutes).timely hids
      (fun _ => rfl) htimely hnode
    exact hafter.of_records (hexecutes.appends hindexed hnew).1 hafter.spares rfl

end Engine

end Workflow
