import Mathlib.Data.List.Perm.Basic
import Workflow.Block.Scripted
import Workflow.Proofs.Run.Acyclic
import Workflow.Proofs.Validation.Order
import Workflow.Validation.Check

namespace Workflow

namespace Validation

open Relation

variable {tree : Tree} {registry : Registry} {nodes : List Node}

/-- An edge leads to one of the components or to another one of the tree. -/
def Lands (tree : Tree) (nodes : List Node) (out : Out) : Prop :=
  (∃ node ∈ nodes, node.id = out.target) ∨ ∃ node ∈ tree.nodes, node.id = out.target

/-- Every block type is registered, every edge leads somewhere, and the edges among the components
have no cycle. -/
structure WellFormed (tree : Tree) (registry : Registry) (nodes : List Node) : Prop where
  registered : ∀ node ∈ nodes, registry.contains node.type = true
  lands : ∀ node ∈ nodes, ∀ out ∈ node.outs, Lands tree nodes out
  acyclic : Acyclic nodes

/-- What is wrong with components, by the error that tells it. -/
inductive Faulty (tree : Tree) (registry : Registry) (nodes : List Node) : GraphError → Prop
  /-- A component whose type is not registered is the first such one. -/
  | unregistered {before node after} : nodes = before ++ node :: after →
      (∀ earlier ∈ before, registry.contains earlier.type = true) →
      ¬ registry.contains node.type = true →
      Faulty tree registry nodes (.unknownBlockType node.id node.type)
  /-- An edge that leads nowhere is the first such one, among components of registered types. -/
  | dangling {before node after sooner out later} :
      (∀ node ∈ nodes, registry.contains node.type = true) →
      nodes = before ++ node :: after →
      (∀ earlier ∈ before, ∀ out ∈ earlier.outs, Lands tree nodes out) →
      node.outs = sooner ++ out :: later → (∀ out ∈ sooner, Lands tree nodes out) →
      ¬ Lands tree nodes out →
      Faulty tree registry nodes (.danglingEdge node.id out.target)
  /-- A component leads back to itself. Nothing else is wrong with the components. -/
  | cyclic {node} : (∀ node ∈ nodes, registry.contains node.type = true) →
      (∀ node ∈ nodes, ∀ out ∈ node.outs, Lands tree nodes out) →
      node ∈ nodes → TransGen (Feeds nodes) node node →
      Faulty tree registry nodes (.cyclicDependency node.id)

/-- Components that something is wrong with are not well formed. -/
theorem Faulty.not_wellFormed {e : GraphError} (h : Faulty tree registry nodes e) :
    ¬ WellFormed tree registry nodes := by
  rintro ⟨hregistered, hlands, hacyclic⟩
  cases h with
  | unregistered hnodes _ hunregistered =>
    exact hunregistered (hregistered _ (by simp [hnodes]))
  | @dangling before node after sooner out later _ hnodes _ houts _ hdangling =>
    exact hdangling (hlands node (by simp [hnodes]) out (by simp [houts]))
  | cyclic _ _ _ hcycle => exact hacyclic _ hcycle

theorem lands_iff {out : Out} : lands tree nodes out = true ↔ Lands tree nodes out := by
  simp [lands, Lands, Tree.get?, List.find?_isSome]

/-- No unknown type is found just if every type is registered. -/
theorem unknownType?_eq_none :
    unknownType? registry nodes = none ↔ ∀ node ∈ nodes, registry.contains node.type = true := by
  simp [unknownType?]

/-- No dangling edge is found just if every edge lands. -/
theorem dangling?_eq_none :
    dangling? tree nodes = none ↔ ∀ node ∈ nodes, ∀ out ∈ node.outs, Lands tree nodes out := by
  simp [dangling?, lands_iff]

/-- A component with an unknown type is told with its type. -/
theorem faulty_of_unknownType? {node : Node} (h : unknownType? registry nodes = some node) :
    Faulty tree registry nodes (.unknownBlockType node.id node.type) := by
  obtain ⟨hnode, before, after, hnodes, hbefore⟩ := List.find?_eq_some_iff_append.mp h
  exact .unregistered hnodes (by simpa using hbefore) (by simpa using hnode)

/-- An edge that lands nowhere is told with its ends, once every type is known. -/
theorem faulty_of_dangling? {source target : String}
    (hregistered : ∀ node ∈ nodes, registry.contains node.type = true)
    (h : dangling? tree nodes = some (source, target)) :
    Faulty tree registry nodes (.danglingEdge source target) := by
  obtain ⟨before, node, after, hnodes, hfound, hbefore⟩ := List.findSome?_eq_some_iff.mp h
  obtain ⟨out, hfind, hpair⟩ := Option.map_eq_some_iff.mp hfound
  obtain ⟨rfl, rfl⟩ := Prod.mk.inj hpair
  obtain ⟨hout, sooner, later, houts, hsooner⟩ := List.find?_eq_some_iff_append.mp hfind
  refine .dangling hregistered hnodes ?_ houts ?_ ?_
  · simpa [lands_iff] using hbefore
  · simpa [lands_iff] using hsooner
  · rw [← lands_iff]
    simpa using hout

/-- Components with distinct ids are found at their positions. -/
theorem lastPosition?_eq_some (hnodup : (nodes.map Node.id).Nodup) {id : String} {i : Nat} :
    lastPosition? nodes id = some i ↔ (nodes.map Node.id)[i]? = some id := by
  have hmem : ∀ placed, placed ∈ nodes.zipIdx.filter (fun placed => placed.1.id == id) →
      (nodes.map Node.id)[placed.2]? = some id := by
    rintro ⟨node, j⟩ hplaced
    obtain ⟨hplaced, hid⟩ := List.mem_filter.mp hplaced
    rw [List.getElem?_map, List.mem_zipIdx_iff_getElem?.mp hplaced, Option.map_some]
    exact congrArg some (eq_of_beq hid)
  unfold lastPosition?
  constructor
  · intro h
    obtain ⟨placed, hlast, rfl⟩ := Option.map_eq_some_iff.mp h
    exact hmem placed (List.mem_of_getLast? hlast)
  · intro h
    have hlt := (List.getElem?_eq_some_iff.mp h).1
    rw [List.getElem?_map] at h
    obtain ⟨node, hnode, rfl⟩ := Option.map_eq_some_iff.mp h
    have hplaced : (node, i) ∈ nodes.zipIdx.filter (fun placed => placed.1.id == node.id) :=
      List.mem_filter.mpr ⟨List.mem_zipIdx_iff_getElem?.mpr hnode, beq_self_eq_true _⟩
    obtain ⟨last, hlast⟩ := Option.isSome_iff_exists.mp
      (List.getLast?_isSome.mpr (List.ne_nil_of_mem hplaced))
    have hsame := (hmem last (List.mem_of_getLast? hlast)).trans (hmem _ hplaced).symm
    have hposition : i = last.2 := (List.getElem?_inj hlt hnodup).mp hsame.symm
    rw [hlast, Option.map_some, hposition]

/-- An edge of the graph is an edge among the components at its ends. -/
theorem adj_graph_iff (hnodup : (nodes.map Node.id).Nodup) {i j : Nat} :
    (graph nodes).Adj i j ↔
      ∃ producer target, nodes[i]? = some producer ∧ nodes[j]? = some target ∧
        Feeds nodes producer target := by
  have hidentified := identified_of_nodup hnodup
  simp only [Digraph.Adj, graph, innerEdges, List.mem_flatMap, List.mem_filterMap]
  constructor
  · rintro ⟨producer, hproducer, out, hout, hedge⟩
    obtain ⟨i', hi, j', hj, hpair⟩ : ∃ i', lastPosition? nodes producer.id = some i' ∧
        ∃ j', lastPosition? nodes out.target = some j' ∧ (i', j') = (i, j) := by
      simpa [Option.bind_eq_some_iff] using hedge
    obtain ⟨rfl, rfl⟩ := Prod.mk.inj hpair
    rw [lastPosition?_eq_some hnodup, List.getElem?_map] at hi hj
    obtain ⟨found, hfound, hid⟩ := Option.map_eq_some_iff.mp hi
    obtain ⟨target, htarget, hout_target⟩ := Option.map_eq_some_iff.mp hj
    obtain rfl := hidentified found (List.mem_of_getElem? hfound) producer hproducer hid
    exact ⟨found, target, hfound, htarget, hproducer, List.mem_of_getElem? htarget, out, hout,
      hout_target.symm⟩
  · rintro ⟨producer, target, hi, hj, hproducer, htarget, out, hout, hid⟩
    have hsource : lastPosition? nodes producer.id = some i := by
      rw [lastPosition?_eq_some hnodup, List.getElem?_map, hi, Option.map_some]
    have hgoal : lastPosition? nodes out.target = some j := by
      rw [lastPosition?_eq_some hnodup, List.getElem?_map, hj, Option.map_some, hid]
    exact ⟨producer, hproducer, out, hout, by simp [hsource, hgoal]⟩

theorem closed_graph (hnodup : (nodes.map Node.id).Nodup) : (graph nodes).Closed := by
  intro i j hadj
  obtain ⟨producer, target, hi, hj, _⟩ := (adj_graph_iff hnodup).mp hadj
  exact ⟨(List.getElem?_eq_some_iff.mp hi).1, (List.getElem?_eq_some_iff.mp hj).1⟩

/-- A path in the graph is a path of edges among the components at its ends. -/
theorem leads_of_transGen_adj (hnodup : (nodes.map Node.id).Nodup) {i j : Nat}
    (h : TransGen (graph nodes).Adj i j) :
    ∃ producer target, nodes[i]? = some producer ∧ nodes[j]? = some target ∧
      TransGen (Feeds nodes) producer target := by
  induction h with
  | single hadj =>
    obtain ⟨producer, target, hi, hj, hfeeds⟩ := (adj_graph_iff hnodup).mp hadj
    exact ⟨producer, target, hi, hj, .single hfeeds⟩
  | tail _ hadj ih =>
    obtain ⟨producer, between, hi, hbetween, hpath⟩ := ih
    obtain ⟨found, target, hfound, hj, hfeeds⟩ := (adj_graph_iff hnodup).mp hadj
    obtain rfl := Option.some.inj (hbetween.symm.trans hfound)
    exact ⟨producer, target, hi, hj, hpath.tail hfeeds⟩

theorem idAt_of_getElem? {i : Nat} {node : Node} (h : nodes[i]? = some node) :
    idAt nodes i = node.id := by
  rw [idAt, h]
  rfl

theorem map_idAt_range (nodes : List Node) :
    (List.range nodes.length).map (idAt nodes) = nodes.map Node.id := by
  apply List.ext_getElem
  · simp
  · intro i _ hi
    simp only [List.getElem_map, List.getElem_range]
    rw [List.length_map] at hi
    exact idAt_of_getElem? (List.getElem?_eq_getElem hi)

/-- The edges of the graph are those that lead to one of the components. -/
theorem length_innerEdges (hnodup : (nodes.map Node.id).Nodup) :
    (innerEdges nodes).length =
      (nodes.flatMap Node.outs).countP fun out => out.target ∈ nodes.map Node.id := by
  have hfound : ∀ id, (lastPosition? nodes id).isSome = true ↔ id ∈ nodes.map Node.id := by
    intro id
    simp only [Option.isSome_iff_exists, lastPosition?_eq_some hnodup, List.mem_iff_getElem?]
  rw [innerEdges, List.length_flatMap, List.countP_flatMap]
  congr 1
  apply List.map_congr_left
  intro node hnode
  rw [List.length_filterMap_eq_countP]
  apply List.countP_congr
  intro out _
  -- The source has a position, so an edge is only left out because of its target.
  obtain ⟨i, hi⟩ := Option.isSome_iff_exists.mp
    ((hfound node.id).mpr (List.mem_map_of_mem hnode))
  rw [decide_eq_true_eq, ← hfound, hi]
  cases lastPosition? nodes out.target <;> simp

/-- Mapping keeps the place of an element that no other is mapped to. -/
theorem idxOf_map {α β : Type} [DecidableEq α] [DecidableEq β] {f : α → β} {l : List α} {a : α}
    (hf : ∀ b ∈ l, f b = f a → b = a) : (l.map f).idxOf (f a) = l.idxOf a := by
  induction l with
  | nil => rfl
  | cons b rest ih =>
    obtain ⟨hb, hrest⟩ := List.forall_mem_cons.mp hf
    by_cases heq : b = a
    · simp [heq]
    · simp [heq, mt hb heq, ih hrest]

/-- Along every edge, ids stand in the order that is found for the graph. -/
theorem idxOf_lt_idxOf_of_feeds (hnodup : (nodes.map Node.id).Nodup) {order : List Nat}
    (h : (graph nodes).order = .ok order) {producer target : Node}
    (hfeeds : Feeds nodes producer target) :
    (order.map (idAt nodes)).idxOf producer.id < (order.map (idAt nodes)).idxOf target.id := by
  obtain ⟨hperm, hforward⟩ := Digraph.order_eq_ok (closed_graph hnodup) h
  have hinj : ∀ i node, nodes[i]? = some node → ∀ j ∈ order, idAt nodes j = idAt nodes i →
      j = i := by
    intro i node hi j hj heq
    have hlt : j < nodes.length := List.mem_range.mp (hperm.mem_iff.mp hj)
    rw [idAt_of_getElem? (List.getElem?_eq_getElem hlt), idAt_of_getElem? hi] at heq
    apply (List.getElem?_inj (by simpa using hlt) hnodup).mp
    rw [List.getElem?_map, List.getElem?_map, hi, List.getElem?_eq_getElem hlt, Option.map_some,
      Option.map_some, heq]
  obtain ⟨i, hi⟩ := List.mem_iff_getElem?.mp hfeeds.1
  obtain ⟨j, hj⟩ := List.mem_iff_getElem?.mp hfeeds.2.1
  rw [← idAt_of_getElem? hi, ← idAt_of_getElem? hj, idxOf_map (hinj i producer hi),
    idxOf_map (hinj j target hj)]
  exact hforward i j ((adj_graph_iff hnodup).mpr ⟨producer, target, hi, hj, hfeeds⟩)

/-- Validation fails, or it finds an order of the graph. -/
theorem validate_cases (tree : Tree) (registry : Registry) (nodes : List Node) :
    (∃ node, unknownType? registry nodes = some node ∧
        validate tree registry nodes = .error (.unknownBlockType node.id node.type)) ∨
      unknownType? registry nodes = none ∧
        ((∃ source target, dangling? tree nodes = some (source, target) ∧
            validate tree registry nodes = .error (.danglingEdge source target)) ∨
          dangling? tree nodes = none ∧
            ((∃ v, (graph nodes).order = .error v ∧
                validate tree registry nodes = .error (.cyclicDependency (idAt nodes v))) ∨
              ∃ order, (graph nodes).order = .ok order ∧
                validate tree registry nodes =
                  .ok ⟨nodes.length, (innerEdges nodes).length, order.map (idAt nodes)⟩)) := by
  unfold validate
  cases unknownType? registry nodes with
  | some node => exact .inl ⟨node, rfl, rfl⟩
  | none =>
    refine .inr ⟨rfl, ?_⟩
    cases dangling? tree nodes with
    | some edge => exact .inl ⟨edge.1, edge.2, rfl, rfl⟩
    | none =>
      refine .inr ⟨rfl, ?_⟩
      cases horder : (graph nodes).order with
      | error v => exact .inl ⟨v, rfl, by simp [horder]⟩
      | ok order => exact .inr ⟨order, rfl, by simp only [horder]; rfl⟩

/-- What components are rejected for is wrong with them. -/
theorem faulty_of_validate (hnodup : (nodes.map Node.id).Nodup) {e : GraphError}
    (h : validate tree registry nodes = .error e) : Faulty tree registry nodes e := by
  obtain ⟨node, hunknown, herror⟩ | ⟨hregistered, hrest⟩ := validate_cases tree registry nodes
  · obtain rfl := Except.error.inj (herror.symm.trans h)
    exact faulty_of_unknownType? hunknown
  rw [unknownType?_eq_none] at hregistered
  obtain ⟨source, target, hdangling, herror⟩ | ⟨hlands, hrest⟩ := hrest
  · obtain rfl := Except.error.inj (herror.symm.trans h)
    exact faulty_of_dangling? hregistered hdangling
  rw [dangling?_eq_none] at hlands
  obtain ⟨v, horder, herror⟩ | ⟨order, _, hok⟩ := hrest
  · obtain rfl := Except.error.inj (herror.symm.trans h)
    obtain ⟨_, hcycle⟩ := Digraph.order_eq_error (closed_graph hnodup) horder
    obtain ⟨node, found, hnode, hfound, hcycle⟩ := leads_of_transGen_adj hnodup hcycle
    obtain rfl := Option.some.inj (hnode.symm.trans hfound)
    rw [idAt_of_getElem? hnode]
    exact .cyclic hregistered hlands (List.mem_of_getElem? hnode) hcycle
  · cases hok.symm.trans h

/-- Components that validation accepts are well formed, and it has found an order for them. -/
theorem wellFormed_of_validate (hnodup : (nodes.map Node.id).Nodup) {summary : Validated}
    (h : validate tree registry nodes = .ok summary) :
    WellFormed tree registry nodes ∧ ∃ order, (graph nodes).order = .ok order ∧
      summary = ⟨nodes.length, (innerEdges nodes).length, order.map (idAt nodes)⟩ := by
  obtain ⟨_, _, herror⟩ | ⟨hregistered, hrest⟩ := validate_cases tree registry nodes
  · cases herror.symm.trans h
  obtain ⟨_, _, _, herror⟩ | ⟨hlands, hrest⟩ := hrest
  · cases herror.symm.trans h
  obtain ⟨_, _, herror⟩ | ⟨order, horder, hok⟩ := hrest
  · cases herror.symm.trans h
  refine ⟨⟨unknownType?_eq_none.mp hregistered, dangling?_eq_none.mp hlands, ?_⟩, order, horder,
    (Except.ok.inj (hok.symm.trans h)).symm⟩
  exact acyclic_of_rank (fun node => (order.map (idAt nodes)).idxOf node.id)
    fun _ _ => idxOf_lt_idxOf_of_feeds hnodup horder

/-- Validation of components with distinct ids accepts exactly the well-formed ones. The order that
it returns lists each of them once and every edge leads to a later one; it counts the components
and the edges that lead to one of them. What it rejects components for is wrong with them: it looks
for types that are not registered, then for edges that lead nowhere, and tells the first; only then
it tells of a component that leads back to itself. -/
theorem validate_decides (hnodup : (nodes.map Node.id).Nodup) :
    ((∃ summary, validate tree registry nodes = .ok summary) ↔
        WellFormed tree registry nodes) ∧
      (∀ summary, validate tree registry nodes = .ok summary →
        summary.order.Perm (nodes.map Node.id) ∧
          (∀ producer target, Feeds nodes producer target →
            summary.order.idxOf producer.id < summary.order.idxOf target.id) ∧
          summary.nodes = nodes.length ∧
          summary.edges =
            (nodes.flatMap Node.outs).countP fun out => out.target ∈ nodes.map Node.id) ∧
      ∀ e, validate tree registry nodes = .error e → Faulty tree registry nodes e := by
  refine ⟨⟨?_, ?_⟩, ?_, fun e => faulty_of_validate hnodup⟩
  · rintro ⟨summary, hok⟩
    exact (wellFormed_of_validate hnodup hok).1
  · intro hwellFormed
    cases hvalidate : validate tree registry nodes with
    | ok summary => exact ⟨summary, rfl⟩
    | error e => exact absurd hwellFormed (faulty_of_validate hnodup hvalidate).not_wellFormed
  · intro summary hok
    obtain ⟨_, order, horder, rfl⟩ := wellFormed_of_validate hnodup hok
    refine ⟨?_, fun _ _ => idxOf_lt_idxOf_of_feeds hnodup horder, rfl, length_innerEdges hnodup⟩
    have hperm := (Digraph.order_eq_ok (closed_graph hnodup) horder).1
    rw [← map_idAt_range nodes]
    exact hperm.map (idAt nodes)

end Validation

namespace Sample

/-- The workflow `w` contains `a`, which leads to `b`. The edge of `b` leaves the workflow. -/
def crossing : Tree where
  nodes :=
    [{ id := "w", type := Node.workflowType },
     { id := "a", type := "scripted", parent? := some "w", outs := [⟨"success", "b"⟩] },
     { id := "b", type := "scripted", parent? := some "w", outs := [⟨"success", "x"⟩] },
     { id := "x", type := "scripted" }]
  distinct := by decide +kernel

def registry : Registry := Registry.empty.register "scripted" Scripted.blockType

end Sample

/-- The edge that leaves the workflow lands in the tree, so the components are accepted. -/
theorem Validation.validate_decides_crossing :
    ((Sample.crossing.descendants "w").map Node.id).Nodup ∧
      WellFormed Sample.crossing Sample.registry (Sample.crossing.descendants "w") ∧
      ∃ order, validate Sample.crossing Sample.registry (Sample.crossing.descendants "w") =
          .ok ⟨2, 1, order⟩ ∧ order.idxOf "a" < order.idxOf "b" := by
  have hnodup : ((Sample.crossing.descendants "w").map Node.id).Nodup := by decide +kernel
  have hok : validate Sample.crossing Sample.registry (Sample.crossing.descendants "w") =
      .ok ⟨2, 1, ["a", "b"]⟩ := by decide +kernel
  obtain ⟨haccepts, horders, _⟩ := validate_decides hnodup
  have hfeeds : ∃ producer target, (producer.id = "a" ∧ target.id = "b") ∧
      Feeds (Sample.crossing.descendants "w") producer target := by
    refine ⟨_, _, ⟨rfl, rfl⟩, .head _, .tail _ (.head _), ⟨"success", "b"⟩, .head _, rfl⟩
  obtain ⟨producer, target, ⟨ha, hb⟩, hfeeds⟩ := hfeeds
  have hbefore := (horders _ hok).2.1 producer target hfeeds
  rw [ha, hb] at hbefore
  exact ⟨hnodup, haccepts.mp ⟨_, hok⟩, ["a", "b"], hok, hbefore⟩

end Workflow
