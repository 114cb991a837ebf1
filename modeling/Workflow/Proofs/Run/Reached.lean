import Mathlib
import Workflow.Proofs.Run.Acyclic
import Workflow.Proofs.Run.Once

namespace Workflow

open Relation

/-- A component has a record. -/
def Recorded (records : List Record) (node : Node) : Prop :=
  ∃ record ∈ records, record.id = node.id

/-- The producer of a dependency is recorded with the outcome that its edge is labelled with. -/
def Followed (records : List Record) (dependency : Node × String) : Prop :=
  ∃ record ∈ records, record.id = dependency.1.id ∧ record.outcome? = some dependency.2

/-- A component depends on nothing, or an edge to it is followed. -/
def Fires (nodes : List Node) (records : List Record) (node : Node) : Prop :=
  dependencies node nodes = [] ∨ ∃ dependency ∈ dependencies node nodes, Followed records dependency

/-- Every record is of a component that fired by the records before it. -/
def Justified (nodes : List Node) (records : List Record) : Prop :=
  ∀ i record, records[i]? = some record →
    ∃ node ∈ nodes, node.id = record.id ∧ Fires nodes (records.take i) node

/-- A component is settled if it and those that lead to it are recorded just if they fire. -/
def Settled (nodes : List Node) (records : List Record) (node : Node) : Prop :=
  ∀ other, ReflTransGen (Feeds nodes) other node →
    (Recorded records other ↔ Fires nodes records other)

variable {nodes : List Node} {records new : List Record}

theorem Recorded.append {node : Node} (h : Recorded records node) (new : List Record) :
    Recorded (records ++ new) node := by
  obtain ⟨record, hrecord, hid⟩ := h
  exact ⟨record, List.mem_append_left new hrecord, hid⟩

theorem Followed.recorded {dependency : Node × String} (h : Followed records dependency) :
    Recorded records dependency.1 := by
  obtain ⟨record, hrecord, hid, _⟩ := h
  exact ⟨record, hrecord, hid⟩

/-- A component that fires still does when there are more records. -/
theorem Fires.mono {more : List Record} {node : Node} (h : Fires nodes records node)
    (hsub : ∀ record ∈ records, record ∈ more) : Fires nodes more node := by
  obtain hfree | ⟨dependency, hneeded, record, hrecord, hid, houtcome⟩ := h
  · exact Or.inl hfree
  · exact Or.inr ⟨dependency, hneeded, record, hsub record hrecord, hid, houtcome⟩

/-- A component that is reached fires, if it was told which edges to it are followed. -/
theorem Fires.of_reached {node : Node} {fired : Bool}
    (hreached : dependencies node nodes = [] ∨ fired = true)
    (hfired : fired = true ↔
      false = true ∨ ∃ dependency ∈ dependencies node nodes, Followed records dependency) :
    Fires nodes records node :=
  hreached.imp_right fun hany => (hfired.mp hany).resolve_left Bool.false_ne_true

theorem Justified.nil : Justified nodes [] := by
  intro i record hrecord
  cases hrecord

/-- What holds of each record and those before it holds still once it holds of a last one. -/
theorem forall_take_snoc {P : List Record → Record → Prop} {last : Record}
    (h : ∀ i record, records[i]? = some record → P (records.take i) record) (hlast : P records last) :
    ∀ i record, (records ++ [last])[i]? = some record →
      P ((records ++ [last]).take i) record := by
  intro i record hrecord
  rcases Nat.lt_or_ge i records.length with hlt | hge
  · rw [List.getElem?_append_left hlt] at hrecord
    rw [List.take_append_of_le_length (by omega)]
    exact h i record hrecord
  · rw [List.getElem?_append_right hge] at hrecord
    obtain ⟨hin, hrecord⟩ := List.getElem?_eq_some_iff.mp hrecord
    obtain rfl : i = records.length := by
      rw [List.length_singleton] at hin
      omega
    obtain rfl : last = record := by simpa using hrecord
    rwa [List.take_left]

/-- Recording a component that fires keeps the records justified. -/
theorem Justified.snoc (hjustified : Justified nodes records) {node : Node} {record : Record}
    (hnode : node ∈ nodes) (hid : record.id = node.id) (hfires : Fires nodes records node) :
    Justified nodes (records ++ [record]) :=
  forall_take_snoc
    (P := fun earlier record => ∃ node ∈ nodes, node.id = record.id ∧ Fires nodes earlier node)
    hjustified ⟨node, hnode, hid.symm, hfires⟩

/-- A recorded component fires. -/
theorem Justified.fires (hjustified : Justified nodes records) (hids : Identified nodes)
    {node : Node} (hnode : node ∈ nodes) (hrecorded : Recorded records node) :
    Fires nodes records node := by
  obtain ⟨record, hrecord, hid⟩ := hrecorded
  obtain ⟨i, hi⟩ := List.mem_iff_getElem?.mp hrecord
  obtain ⟨found, hfound, hfoundId, hfires⟩ := hjustified i record hi
  obtain rfl := hids found hfound node hnode (hfoundId.trans hid)
  exact hfires.mono fun _ => List.mem_of_mem_take

/-- A component that has a record gets no other one. -/
theorem mem_of_recorded (hnodup : ((records ++ new).map Record.id).Nodup) {record : Record}
    (hrecord : record ∈ records ++ new) {node : Node} (hid : record.id = node.id)
    (hrecorded : Recorded records node) : record ∈ records := by
  obtain ⟨old, hold, holdId⟩ := hrecorded
  have heq := List.inj_on_of_nodup_map hnodup hrecord (List.mem_append_left new hold)
    (hid.trans holdId.symm)
  exact heq ▸ hold

/-- The only record of a producer decides whether an edge from it is followed. -/
theorem followed_iff_matches (hnodup : (records.map Record.id).Nodup) {record : Record}
    (hrecord : record ∈ records) {producer : Node} (hid : record.id = producer.id)
    (label : String) : Followed records (producer, label) ↔ record.matches label = true := by
  rw [Record.matches, beq_iff_eq]
  constructor
  · rintro ⟨found, hfound, hfoundId, houtcome⟩
    obtain rfl := List.inj_on_of_nodup_map hnodup hrecord hfound (hid.trans hfoundId.symm)
    exact houtcome
  · intro houtcome
    exact ⟨record, hrecord, hid, houtcome⟩

/-- One of the edges was followed if one of those before was, this one was or a later one was. -/
theorem any_followed_cons {dependency : Node × String} {rest : List (Node × String)}
    {fired next any : Bool} (hnext : next = true ↔ fired = true ∨ Followed records dependency)
    (hany : any = true ↔ next = true ∨ ∃ later ∈ rest, Followed records later) :
    any = true ↔ fired = true ∨ ∃ other ∈ dependency :: rest, Followed records other := by
  rw [hany, hnext, or_assoc]
  simp only [List.mem_cons, exists_eq_or_imp]

/-- The index finds no record just where there is none. -/
theorem Scope.Indexed.get?_eq_none_iff_not_recorded {scope : Scope} (hindexed : scope.Indexed)
    {node : Node} : scope.get? node.id = none ↔ ¬ Recorded scope.records node := by
  rw [hindexed.get?_eq_none_iff, List.mem_map]
  rfl

namespace Settled

/-- Later records are of other components than the settled ones. -/
theorem recorded_of_append {node : Node} (hsettled : Settled nodes records node)
    (hacyclic : Acyclic nodes) (hids : Identified nodes) (hnode : node ∈ nodes)
    (hjustified : Justified nodes (records ++ new))
    (hnodup : ((records ++ new).map Record.id).Nodup) {other : Node}
    (hleads : ReflTransGen (Feeds nodes) other node) (hrecorded : Recorded (records ++ new) other) :
    Recorded records other := by
  -- Along the edges: the component that it fires by leads to `node` too, so it is not a later one.
  induction other using hacyclic.wellFounded.induction with
  | _ other ih =>
    have hother := mem_of_leads hnode hleads
    apply (hsettled other hleads).mpr
    obtain hfree | ⟨⟨producer, label⟩, hneeded, record, hrecord, hid, houtcome⟩ :=
      hjustified.fires hids hother hrecorded
    · exact Or.inl hfree
    · have hfeeds := feeds_of_mem_dependencies hother hneeded
      have hproducer := ih producer hfeeds (.head hfeeds hleads) ⟨record, hrecord, hid⟩
      exact Or.inr ⟨(producer, label), hneeded, record, mem_of_recorded hnodup hrecord hid hproducer,
        hid, houtcome⟩

/-- A settled component stays settled, whatever is recorded later. -/
theorem append {node : Node} (hsettled : Settled nodes records node) (hacyclic : Acyclic nodes)
    (hids : Identified nodes) (hnode : node ∈ nodes) (hjustified : Justified nodes (records ++ new))
    (hnodup : ((records ++ new).map Record.id).Nodup) : Settled nodes (records ++ new) node := by
  intro other hleads
  have hother := mem_of_leads hnode hleads
  refine ⟨hjustified.fires hids hother, ?_⟩
  intro hfires
  apply Recorded.append
  apply (hsettled other hleads).mpr
  obtain hfree | ⟨⟨producer, label⟩, hneeded, record, hrecord, hid, houtcome⟩ := hfires
  · exact Or.inl hfree
  · have hfeeds := feeds_of_mem_dependencies hother hneeded
    have hproducer := hsettled.recorded_of_append hacyclic hids hnode hjustified hnodup
      (.head hfeeds hleads) ⟨record, hrecord, hid⟩
    exact Or.inr ⟨(producer, label), hneeded, record, mem_of_recorded hnodup hrecord hid hproducer,
      hid, houtcome⟩

/-- A component is settled if its dependencies are and it is itself recorded just if it fires. -/
theorem of_dependencies {node : Node} (hparent : node.parent?.isSome = true)
    (hneeded : ∀ dependency ∈ dependencies node nodes, Settled nodes records dependency.1)
    (hself : Recorded records node ↔ Fires nodes records node) :
    Settled nodes records node := by
  intro other hleads
  obtain rfl | ⟨producer, hpath, hfeeds⟩ := hleads.cases_tail
  · exact hself
  · obtain ⟨label, hmem⟩ := hfeeds.mem_dependencies hparent
    exact hneeded (producer, label) hmem other hpath

end Settled

/-- Components with containers, told apart by their ids, whose edges have no cycle. -/
structure Ordered (nodes : List Node) : Prop where
  contained : ∀ node ∈ nodes, node.parent?.isSome = true
  identified : Identified nodes
  acyclic : Acyclic nodes

/-- What holds of a scope throughout a run: its records are justified, and their components are
settled. -/
structure Scope.Orderly (nodes : List Node) (scope : Scope) : Prop where
  indexed : scope.Indexed
  justified : Justified nodes scope.records
  settled : ∀ node ∈ nodes, Recorded scope.records node → Settled nodes scope.records node

namespace Scope.Orderly

theorem empty : Orderly nodes {} :=
  ⟨.empty, .nil, fun _ _ ⟨_, hrecord, _⟩ => nomatch hrecord⟩

theorem enter {scope : Scope} (h : scope.Orderly nodes) (id : String) :
    (scope.enter id).Orderly nodes := ⟨h.indexed, h.justified, h.settled⟩

theorem leave {scope : Scope} (h : scope.Orderly nodes) (id : String) :
    (scope.leave id).Orderly nodes := ⟨h.indexed, h.justified, h.settled⟩

/-- What was settled stays settled while the scope grows. -/
theorem grow {before after : Scope} {broken : List String} (hafter : after.Orderly nodes)
    (hordered : Ordered nodes) (hadds : before.Adds after new broken) {node : Node}
    (hnode : node ∈ nodes) (hsettled : Settled nodes before.records node) :
    Settled nodes after.records node ∧
      (Recorded after.records node → Recorded before.records node) := by
  have hjustified := hafter.justified
  have hnodup := hafter.indexed.nodup
  rw [hadds.records] at hjustified hnodup ⊢
  exact ⟨hsettled.append hordered.acyclic hordered.identified hnode hjustified hnodup,
    hsettled.recorded_of_append hordered.acyclic hordered.identified hnode hjustified hnodup .refl⟩

/-- The scope stays in order while no records are added. -/
theorem of_records {before after : Scope} (h : before.Orderly nodes) (hindexed : after.Indexed)
    (hrecords : after.records = before.records) : after.Orderly nodes := by
  refine ⟨hindexed, ?_, ?_⟩
  · rw [hrecords]
    exact h.justified
  · rw [hrecords]
    exact h.settled

/-- Recording a component that fires, after its dependencies are settled. -/
theorem snoc {before after : Scope} (h : before.Orderly nodes) (hordered : Ordered nodes)
    {node : Node} {record : Record} (hnode : node ∈ nodes) (hid : record.id = node.id)
    (hneeded : ∀ dependency ∈ dependencies node nodes, Settled nodes before.records dependency.1)
    (hfires : Fires nodes before.records node) (hindexed : after.Indexed)
    (hrecords : after.records = before.records ++ [record]) : after.Orderly nodes := by
  have hnodup := hindexed.nodup
  have hjustified := h.justified.snoc hnode hid hfires
  rw [hrecords] at hnodup
  have hkeeps : ∀ other ∈ nodes, Settled nodes before.records other →
      Settled nodes (before.records ++ [record]) other := fun other hother hsettled =>
    hsettled.append hordered.acyclic hordered.identified hother hjustified hnodup
  refine ⟨hindexed, by rwa [hrecords], ?_⟩
  rw [hrecords]
  rintro other hother ⟨found, hfound, hfoundId⟩
  rcases List.mem_append.mp hfound with hold | hlast
  · exact hkeeps other hother (h.settled other hother ⟨found, hold, hfoundId⟩)
  · obtain rfl := List.mem_singleton.mp hlast
    obtain rfl := hordered.identified node hnode other hother (hid.symm.trans hfoundId)
    refine .of_dependencies (hordered.contained node hnode) ?_ ?_
    · intro dependency hmem
      exact hkeeps dependency.1 (mem_of_mem_dependencies hmem) (hneeded dependency hmem)
    · exact ⟨fun _ => hfires.mono fun _ => List.mem_append_left _,
        fun _ => ⟨found, hfound, hfoundId⟩⟩

end Scope.Orderly

namespace Engine

variable {engine : Engine} {branches : Branches} {env : Environment}

/-- Executing a component that fires records it, unless its block is not made or breaks off. -/
private theorem Executes.orderly {node : Node} {frame after : Frame}
    {ending : Ending FlowError Resolution}
    (h : Executes engine branches node env frame ending after) (hordered : Ordered nodes)
    (horderly : frame.scope.Orderly nodes) (hnode : node ∈ nodes)
    (hnew : frame.scope.get? node.id = none)
    (hneeded : ∀ dependency ∈ dependencies node nodes,
      Settled nodes frame.scope.records dependency.1)
    (hfires : Fires nodes frame.scope.records node) :
    after.scope.Orderly nodes ∧ ending ≠ .ok .unreached ∧
      ∀ record, ending = .ok (.reached record) →
        record ∈ after.scope.records ∧ record.id = node.id := by
  obtain ⟨hindexed, ⟨record, hleaves, hrecords, _, hending⟩ | ⟨halt, _, rfl, hrecords, _⟩⟩ :=
    h.appends horderly.indexed hnew
  · refine ⟨horderly.snoc hordered hnode hleaves.id_eq hneeded hfires hindexed hrecords, ?_⟩
    obtain rfl | ⟨_, e, rfl⟩ := hending
    · refine ⟨nofun, ?_⟩
      rintro _ ⟨⟩
      rw [hrecords]
      exact ⟨List.mem_append_right _ List.mem_cons_self, hleaves.id_eq⟩
    · exact ⟨nofun, nofun⟩
  · exact ⟨horderly.of_records hindexed hrecords, Halt.ending_ne_ok _ _,
      fun _ h => absurd h (Halt.ending_ne_ok _ _)⟩

mutual

/-- Resolving a component of a run keeps the scope in order, and settles the component unless the
run ends with it. -/
theorem Resolves.orderly {node : Node} {frame after : Frame} {attempts : List Attempt}
    {ending : Ending FlowError Resolution}
    (h : Resolves engine branches nodes env node frame attempts ending after) (hordered : Ordered nodes)
    (horderly : frame.scope.Orderly nodes) (hnode : node ∈ nodes) :
    after.scope.Orderly nodes ∧
      (ending = .ok .unreached →
        Settled nodes after.scope.records node ∧ ¬ Recorded after.scope.records node) ∧
      ∀ record, ending = .ok (.reached record) →
        record ∈ after.scope.records ∧ record.id = node.id := by
  match h with
  | .unregistered _ => exact ⟨horderly, nofun, nofun⟩
  | .recorded _ hrecord =>
    refine ⟨horderly, nofun, ?_⟩
    rintro _ ⟨⟩
    exact horderly.indexed.get?_eq_some_iff.mp hrecord
  | .cyclic _ _ _ => exact ⟨horderly, nofun, nofun⟩
  | .halted _ hgathers =>
    obtain ⟨hbetween, _⟩ := hgathers.orderly hordered (horderly.enter node.id)
      (fun _ => mem_of_mem_dependencies)
    exact ⟨hbetween.leave node.id, fun h => absurd h (Halt.ending_ne_ok _ _),
      fun _ h => absurd h (Halt.ending_ne_ok _ _)⟩
  | .returned _ hgathers =>
    obtain ⟨hbetween, _⟩ := hgathers.orderly hordered (horderly.enter node.id)
      (fun _ => mem_of_mem_dependencies)
    exact ⟨hbetween.leave node.id, nofun, nofun⟩
  | .unreached henters hgathers hneeded =>
    obtain ⟨hbetween, hready⟩ := hgathers.orderly hordered (horderly.enter node.id)
      (fun _ => mem_of_mem_dependencies)
    obtain ⟨hsettled, hfired⟩ := hready _ _ rfl
    obtain ⟨hindexed, hunrecorded⟩ := hgathers.unrecorded horderly.indexed henters
    have hnew := hindexed.get?_eq_none_iff_not_recorded.mp hunrecorded
    refine ⟨hbetween.leave node.id, fun _ => ⟨?_, hnew⟩, nofun⟩
    refine .of_dependencies (hordered.contained node hnode) hsettled ⟨fun h => absurd h hnew, ?_⟩
    rintro (hfree | hfollowed)
    · exact absurd hfree hneeded
    · exact nomatch hfired.mpr (Or.inr hfollowed)
  | .executed henters hgathers hreached hexecutes =>
    obtain ⟨hbetween, hready⟩ := hgathers.orderly hordered (horderly.enter node.id)
      (fun _ => mem_of_mem_dependencies)
    obtain ⟨hsettled, hfired⟩ := hready _ _ rfl
    obtain ⟨_, hnew⟩ := hgathers.unrecorded horderly.indexed henters
    obtain ⟨hafter, hunreached, hrecorded⟩ :=
      hexecutes.orderly hordered hbetween hnode hnew hsettled (.of_reached hreached hfired)
    exact ⟨hafter.leave node.id, fun h => absurd h hunreached, hrecorded⟩

/-- Gathering keeps the scope in order, settles the dependencies, and tells whether an edge from one
of them is followed. -/
theorem Gathers.orderly {needed : List (Node × String)} {result : Json} {fired : Bool}
    {frame after : Frame} {attempts : List Attempt} {ending : Ending FlowError Gathered}
    (h : Gathers engine branches nodes env needed result fired frame attempts ending after)
    (hordered : Ordered nodes) (horderly : frame.scope.Orderly nodes)
    (hneeded : ∀ dependency ∈ needed, dependency.1 ∈ nodes) :
    after.scope.Orderly nodes ∧
      ∀ last any, ending = .ok (.ready last any) →
        (∀ dependency ∈ needed, Settled nodes after.scope.records dependency.1) ∧
        (any = true ↔
          fired = true ∨ ∃ dependency ∈ needed, Followed after.scope.records dependency) := by
  match h with
  | .done =>
    refine ⟨horderly, ?_⟩
    rintro _ _ ⟨⟩
    simp
  | .halted hresolves =>
    obtain ⟨hproducer, _⟩ := List.forall_mem_cons.mp hneeded
    obtain ⟨hafter, _⟩ := hresolves.orderly hordered horderly hproducer
    exact ⟨hafter, fun _ _ h => absurd h (Halt.ending_ne_ok _ _)⟩
  | .returned hresolves =>
    obtain ⟨hproducer, _⟩ := List.forall_mem_cons.mp hneeded
    obtain ⟨hafter, _⟩ := hresolves.orderly hordered horderly hproducer
    exact ⟨hafter, nofun⟩
  | .unreached hresolves hrest =>
    obtain ⟨hproducer, hothers⟩ := List.forall_mem_cons.mp hneeded
    obtain ⟨hbetween, hunreached, _⟩ := hresolves.orderly hordered horderly hproducer
    obtain ⟨hafter, hready⟩ := hrest.orderly hordered hbetween hothers
    obtain ⟨hsettled, hnew⟩ := hunreached rfl
    obtain ⟨new, broken, hadds, _⟩ := hrest.adds hbetween.indexed
    obtain ⟨hstill, hrecorded⟩ := hafter.grow hordered hadds hproducer hsettled
    refine ⟨hafter, fun last any heq => ?_⟩
    obtain ⟨hall, hfired⟩ := hready last any heq
    refine ⟨List.forall_mem_cons.mpr ⟨hstill, hall⟩, any_followed_cons ?_ hfired⟩
    have hunfollowed : ¬ Followed _ _ := fun h => hnew (hrecorded h.recorded)
    rw [or_iff_left hunfollowed]
  | .ended hresolves _ =>
    obtain ⟨hproducer, _⟩ := List.forall_mem_cons.mp hneeded
    obtain ⟨hafter, _⟩ := hresolves.orderly hordered horderly hproducer
    exact ⟨hafter, nofun⟩
  | .reached hresolves _ hrest =>
    obtain ⟨hproducer, hothers⟩ := List.forall_mem_cons.mp hneeded
    obtain ⟨hbetween, _, hreached⟩ := hresolves.orderly hordered horderly hproducer
    obtain ⟨hafter, hready⟩ := hrest.orderly hordered hbetween hothers
    obtain ⟨hrecord, hid⟩ := hreached _ rfl
    obtain ⟨new, broken, hadds, _⟩ := hrest.adds hbetween.indexed
    have hsettled := hbetween.settled _ hproducer ⟨_, hrecord, hid⟩
    obtain ⟨hstill, _⟩ := hafter.grow hordered hadds hproducer hsettled
    refine ⟨hafter, fun last any heq => ?_⟩
    obtain ⟨hall, hfired⟩ := hready last any heq
    refine ⟨List.forall_mem_cons.mpr ⟨hstill, hall⟩, any_followed_cons ?_ hfired⟩
    have hlater := hadds.records ▸ List.mem_append_left new hrecord
    rw [followed_iff_matches hafter.indexed.nodup hlater hid, Bool.or_eq_true]

end

/-- A run that comes to its end without a return value has settled every component it pulled. -/
theorem Pulls.orderly {pulled : List Node} {frame after : Frame} {attempts : List Attempt}
    {ending : Ending FlowError (Option Json)}
    (h : Pulls engine branches nodes env pulled frame attempts ending after)
    (hordered : Ordered nodes) (horderly : frame.scope.Orderly nodes)
    (hpulled : ∀ node ∈ pulled, node ∈ nodes) :
    after.scope.Orderly nodes ∧
      (ending = .ok none → ∀ node ∈ pulled, Settled nodes after.scope.records node) := by
  induction h with
  | done => exact ⟨horderly, fun _ => nofun⟩
  | halted hresolves =>
    obtain ⟨hnode, _⟩ := List.forall_mem_cons.mp hpulled
    obtain ⟨hafter, _⟩ := hresolves.orderly hordered horderly hnode
    exact ⟨hafter, fun h => absurd h (Halt.ending_ne_ok _ _)⟩
  | returned hresolves =>
    obtain ⟨hnode, _⟩ := List.forall_mem_cons.mp hpulled
    exact ⟨(hresolves.orderly hordered horderly hnode).1, nofun⟩
  | ended hresolves _ =>
    obtain ⟨hnode, _⟩ := List.forall_mem_cons.mp hpulled
    exact ⟨(hresolves.orderly hordered horderly hnode).1, nofun⟩
  | unreached hresolves hrest ih =>
    obtain ⟨hnode, hothers⟩ := List.forall_mem_cons.mp hpulled
    obtain ⟨hbetween, hunreached, _⟩ := hresolves.orderly hordered horderly hnode
    obtain ⟨hafter, hall⟩ := ih hbetween hothers
    obtain ⟨new, broken, hadds, _⟩ := hrest.adds hbetween.indexed
    have hsettled := (hafter.grow hordered hadds hnode (hunreached rfl).1).1
    exact ⟨hafter, fun h => List.forall_mem_cons.mpr ⟨hsettled, hall h⟩⟩
  | reached hresolves _ hrest ih =>
    obtain ⟨hnode, hothers⟩ := List.forall_mem_cons.mp hpulled
    obtain ⟨hbetween, _, hreached⟩ := hresolves.orderly hordered horderly hnode
    obtain ⟨hrecord, hid⟩ := hreached _ rfl
    obtain ⟨hafter, hall⟩ := ih hbetween hothers
    obtain ⟨new, broken, hadds, _⟩ := hrest.adds hbetween.indexed
    have hsettled := hbetween.settled _ hnode ⟨_, hrecord, hid⟩
    have hstill := (hafter.grow hordered hadds hnode hsettled).1
    exact ⟨hafter, fun h => List.forall_mem_cons.mpr ⟨hstill, hall h⟩⟩

end Engine

/-- Following the edges that were followed leads to a component from one that depends on nothing. -/
def Reached (nodes : List Node) (records : List Record) (node : Node) : Prop :=
  ∃ start ∈ nodes, dependencies start nodes = [] ∧
    ReflTransGen (fun producer target => ∃ label,
      (producer, label) ∈ dependencies target nodes ∧ Followed records (producer, label)) start node

/-- Where every component is recorded just if it fires, the recorded components are the reached
ones. -/
theorem recorded_iff_reached (hacyclic : Acyclic nodes)
    (hfires : ∀ node ∈ nodes, Recorded records node ↔ Fires nodes records node) {node : Node}
    (hnode : node ∈ nodes) : Recorded records node ↔ Reached nodes records node := by
  constructor
  · induction node using hacyclic.wellFounded.induction with
    | _ node ih =>
      intro hrecorded
      obtain hfree | ⟨⟨producer, label⟩, hneeded, hfollowed⟩ := (hfires node hnode).mp hrecorded
      · exact ⟨node, hnode, hfree, .refl⟩
      · have hfeeds := feeds_of_mem_dependencies hnode hneeded
        obtain ⟨start, hstart, hfree, hpath⟩ := ih producer hfeeds hfeeds.1 hfollowed.recorded
        exact ⟨start, hstart, hfree, hpath.tail ⟨label, hneeded, hfollowed⟩⟩
  · rintro ⟨start, hstart, hfree, hpath⟩
    obtain rfl | ⟨producer, _, label, hneeded, hfollowed⟩ := hpath.cases_tail
    · exact (hfires _ hnode).mpr (Or.inl hfree)
    · exact (hfires node hnode).mpr (Or.inr ⟨(producer, label), hneeded, hfollowed⟩)

/-- The firing rule has one solution at most: where the edges have no cycle, whatever set of
components agrees with it holds just those that have a record. -/
theorem eq_recorded_of_fires (hacyclic : Acyclic nodes)
    (hfires : ∀ node ∈ nodes, Recorded records node ↔ Fires nodes records node)
    {chosen : Node → Prop}
    (hchosen : ∀ node ∈ nodes, chosen node ↔ dependencies node nodes = [] ∨
      ∃ dependency ∈ dependencies node nodes, chosen dependency.1 ∧ Followed records dependency)
    {node : Node} (hnode : node ∈ nodes) : chosen node ↔ Recorded records node := by
  induction node using hacyclic.wellFounded.induction with
  | _ node ih =>
    rw [hchosen node hnode, hfires node hnode]
    refine or_congr_right (exists_congr fun dependency => and_congr_right fun hneeded => ?_)
    have hfeeds := feeds_of_mem_dependencies hnode hneeded
    rw [ih dependency.1 hfeeds hfeeds.1, and_iff_right_iff_imp]
    exact Followed.recorded

/-- A run of components in a fresh scope records a component only if it depends on nothing or if an
edge to it was followed from a component recorded before it. A run that ends without a return value
records exactly the components that fire, which are those that the followed edges reach; no other
set of components agrees with the firing rule. -/
theorem Engine.records_of_runNodes (hordered : Ordered nodes) (engine : Engine)
    (branches : Branches) (env : Environment) (world : World)
    {ending : Ending FlowError (Option Json)} {after : Frame}
    (hrun : engine.runNodes branches nodes env { world } = (ending, after)) :
    (∀ i record, after.scope.records[i]? = some record →
      ∃ node ∈ nodes, node.id = record.id ∧
        (dependencies node nodes = [] ∨ ∃ dependency ∈ dependencies node nodes,
          ∃ earlier ∈ after.scope.records.take i,
            earlier.id = dependency.1.id ∧ earlier.outcome? = some dependency.2)) ∧
    (ending = .ok none →
      (∀ node ∈ nodes, Recorded after.scope.records node ↔ Fires nodes after.scope.records node) ∧
      (∀ node ∈ nodes, Recorded after.scope.records node ↔
        Reached nodes after.scope.records node) ∧
      ∀ chosen : Node → Prop,
        (∀ node ∈ nodes, chosen node ↔ dependencies node nodes = [] ∨
          ∃ dependency ∈ dependencies node nodes,
            chosen dependency.1 ∧ Followed after.scope.records dependency) →
        ∀ node ∈ nodes, chosen node ↔ Recorded after.scope.records node) := by
  obtain ⟨attempts, hpulls⟩ := engine.pulls_runNodes branches nodes env { world }
  rw [hrun] at hpulls
  obtain ⟨hafter, hsettled⟩ := hpulls.orderly hordered .empty fun _ => mem_of_mem_terminals
  refine ⟨hafter.justified, fun hend => ?_⟩
  have hfires : ∀ node ∈ nodes,
      Recorded after.scope.records node ↔ Fires nodes after.scope.records node := by
    intro node hnode
    obtain ⟨terminal, hterminal, hpath⟩ := hordered.acyclic.exists_terminal hnode
    exact hsettled hend terminal hterminal node hpath
  exact ⟨hfires, fun _ => recorded_iff_reached hordered.acyclic hfires,
    fun _ hchosen _ => eq_recorded_of_fires hordered.acyclic hfires hchosen⟩

theorem Sample.ordered_forked : Ordered Sample.forked := by
  refine ⟨by decide, identified_of_nodup (by decide),
    acyclic_of_rank (fun node => ["a", "b", "c", "d"].idxOf node.id) ?_⟩
  rintro producer target ⟨hproducer, -, out, hout, htarget⟩
  rw [← htarget]
  clear htarget
  revert producer out
  decide

/-- A run of the forked components. -/
def Sample.run : Ending FlowError (Option Json) × Frame :=
  Sample.runner.runNodes Sample.runner.nested Sample.forked .empty {}

/-- The branch that is not taken has no record. -/
theorem Engine.records_of_runNodes_forked :
    ∃ after, Ordered Sample.forked ∧ Sample.run = (.ok none, after) ∧
      after.scope.records.map Record.id = ["a", "b", "d"] ∧
      ∀ node ∈ Sample.forked, Recorded after.scope.records node ↔
        Fires Sample.forked after.scope.records node := by
  obtain ⟨⟨ending, after⟩, hrun⟩ : ∃ run, Sample.run = run := ⟨_, rfl⟩
  have hending : Sample.run.1 = .ok none := by cbv
  have hrecords : Sample.run.2.scope.records.map Record.id = ["a", "b", "d"] := by decide +kernel
  rw [hrun] at hending hrecords
  subst hending
  obtain ⟨_, hnormal⟩ := Engine.records_of_runNodes Sample.ordered_forked _ _ _ _ hrun
  exact ⟨after, Sample.ordered_forked, hrun, hrecords, (hnormal rfl).1⟩

end Workflow
