import Workflow.Proofs.Run.Contained
import Workflow.Proofs.Run.Invariant
import Workflow.Proofs.Run.Reached
import Workflow.Proofs.Validation.Validated

namespace Workflow

open Relation

/-- What other components can depend on when a component has run. -/
structure Product where
  outcome? : Option String
  result : Json

/-- What others can depend on in a record. -/
def Record.product (record : Record) : Product := ⟨record.outcome?, record.result⟩

variable {nodes others : List Node} {assigned : Node → Product}

/-- Every record is of a component of the run, with the product that is known of it. -/
def Produced (nodes : List Node) (assigned : Node → Product) (records : List Record) : Prop :=
  ∀ record ∈ records, ∃ node ∈ nodes, node.id = record.id ∧ record.product = assigned node

/-- A component depends on nothing, or a chosen one is known to produce the outcome of an edge to
it. -/
def FiresBy (nodes : List Node) (assigned : Node → Product) (chosen : Node → Prop) (node : Node) :
    Prop :=
  dependencies node nodes = [] ∨
    ∃ dependency ∈ dependencies node nodes,
      chosen dependency.1 ∧ (assigned dependency.1).outcome? = some dependency.2

/-- A choice that agrees with the firing rule. -/
def Agrees (nodes : List Node) (assigned : Node → Product) (chosen : Node → Prop) : Prop :=
  ∀ node ∈ nodes, chosen node ↔ FiresBy nodes assigned chosen node

/-- Where the edges have no cycle, one choice at most agrees with the firing rule. -/
theorem Agrees.unique {chosen other : Node → Prop} (h : Agrees nodes assigned chosen)
    (hother : Agrees nodes assigned other) (hacyclic : Acyclic nodes) {node : Node}
    (hnode : node ∈ nodes) : chosen node ↔ other node := by
  induction node using hacyclic.wellFounded.induction with
  | _ node ih =>
    rw [h node hnode, hother node hnode]
    refine or_congr_right (exists_congr fun dependency => and_congr_right fun hneeded => ?_)
    have hfeeds := feeds_of_mem_dependencies hnode hneeded
    rw [ih dependency.1 hfeeds hfeeds.1]

/-- What the components are is all that the firing rule asks of their list. -/
theorem Agrees.of_perm {chosen : Node → Prop} (h : Agrees others assigned chosen)
    (hperm : nodes.Perm others) : Agrees nodes assigned chosen := by
  intro node hnode
  have hneeded : ∀ dependency,
      dependency ∈ dependencies node nodes ↔ dependency ∈ dependencies node others :=
    fun _ => by rw [mem_dependencies_iff, mem_dependencies_iff, hperm.mem_iff]
  rw [h node (hperm.mem_iff.mp hnode), FiresBy, FiresBy]
  simp only [List.eq_nil_iff_forall_not_mem, hneeded]

theorem Feeds.of_perm {producer target : Node} (h : Feeds others producer target)
    (hperm : nodes.Perm others) : Feeds nodes producer target :=
  ⟨hperm.mem_iff.mpr h.1, hperm.mem_iff.mpr h.2.1, h.2.2⟩

/-- Components in another order still have no cycle and their ids still differ. -/
theorem Ordered.of_perm (h : Ordered nodes) (hperm : nodes.Perm others) : Ordered others where
  contained node hnode := h.contained node (hperm.mem_iff.mpr hnode)
  identified node hnode other hother :=
    h.identified node (hperm.mem_iff.mpr hnode) other (hperm.mem_iff.mpr hother)
  acyclic node hcycle :=
    h.acyclic node (TransGen.mono (fun _ _ hfeeds => Feeds.of_perm hfeeds hperm) _ _ hcycle)

namespace Produced

variable {records : List Record}

theorem nil : Produced nodes assigned [] := List.forall_mem_nil _

/-- Recording what a component is known to produce keeps the records as they are known. -/
theorem snoc (h : Produced nodes assigned records) {node : Node} {record : Record}
    (hnode : node ∈ nodes) (hid : record.id = node.id) (hproduct : record.product = assigned node) :
    Produced nodes assigned (records ++ [record]) :=
  List.forall_mem_append.mpr
    ⟨h, List.forall_mem_singleton.mpr ⟨node, hnode, hid.symm, hproduct⟩⟩

/-- An edge is followed if its producer has run and is known to produce the outcome. -/
theorem followed_iff (h : Produced nodes assigned records) (hids : Identified nodes)
    {dependency : Node × String} (hproducer : dependency.1 ∈ nodes) :
    Followed records dependency ↔
      Recorded records dependency.1 ∧ (assigned dependency.1).outcome? = some dependency.2 := by
  have hknown : ∀ record ∈ records, record.id = dependency.1.id →
      record.outcome? = (assigned dependency.1).outcome? := by
    intro record hrecord hid
    obtain ⟨node, hnode, hsame, hproduct⟩ := h record hrecord
    obtain rfl := hids node hnode _ hproducer (hsame.trans hid)
    rw [← hproduct]
    rfl
  constructor
  · rintro ⟨record, hrecord, hid, houtcome⟩
    exact ⟨⟨record, hrecord, hid⟩, hknown record hrecord hid ▸ houtcome⟩
  · rintro ⟨⟨record, hrecord, hid⟩, houtcome⟩
    exact ⟨record, hrecord, hid, (hknown record hrecord hid).trans houtcome⟩

/-- Where just the components that fire are recorded, these agree with the firing rule. -/
theorem agrees (h : Produced nodes assigned records) (hids : Identified nodes)
    (hfires : ∀ node ∈ nodes, Recorded records node ↔ Fires nodes records node) :
    Agrees nodes assigned (Recorded records) := by
  intro node hnode
  refine (hfires node hnode).trans (or_congr_right (exists_congr fun dependency =>
    and_congr_right fun hneeded => ?_))
  exact h.followed_iff hids (mem_of_mem_dependencies hneeded)

/-- The products by id are those that are known of the recorded components. -/
theorem mem_iff (h : Produced nodes assigned records) (hids : Identified nodes) {id : String}
    {product : Product} :
    (id, product) ∈ records.map (fun record => (record.id, record.product)) ↔
      ∃ node ∈ nodes, Recorded records node ∧ node.id = id ∧ assigned node = product := by
  simp only [List.mem_map, Prod.mk.injEq]
  constructor
  · rintro ⟨record, hrecord, rfl, rfl⟩
    obtain ⟨node, hnode, hid, hproduct⟩ := h record hrecord
    exact ⟨node, hnode, ⟨record, hrecord, hid.symm⟩, hid, hproduct.symm⟩
  · rintro ⟨node, hnode, ⟨record, hrecord, hid⟩, rfl, rfl⟩
    obtain ⟨found, hfound, hsame, hproduct⟩ := h record hrecord
    obtain rfl := hids found hfound node hnode (hsame.trans hid)
    exact ⟨record, hrecord, hid, hproduct⟩

end Produced

namespace Engine

variable {engine : Engine} {branches : Branches} {env : Environment}

/-- The block of a component is made. Whatever its environment and the world, it succeeds without a
return value or its failure is contained, and what it produces is known. -/
def Yields (engine : Engine) (branches : Branches) (node : Node) (product : Product) : Prop :=
  ∃ block, engine.registry.create node = .ok block ∧ ∀ env world,
    (∃ output, (block (engine.context branches node env) world).1 = .ok output ∧
      output.returned? = none ∧ output.outcome? = product.outcome? ∧
      output.result = product.result) ∨
    ∃ failure, (block (engine.context branches node env) world).1 = .error failure ∧
      failure.Contained node ∧ failure.outcome? = product.outcome? ∧
      failure.result?.getD (.text failure.error.message) = product.result

namespace Yields

variable {node : Node} {product : Product}

/-- A component that is known to produce something has a registered type. -/
theorem registered (h : engine.Yields branches node product) :
    engine.registry.contains node.type = true := by
  obtain ⟨block, hcreate, _⟩ := h
  obtain ⟨type, hfind, _⟩ := Registry.create_eq_ok_iff.mp hcreate
  rw [Registry.contains, hfind]
  rfl

/-- Executing the component records the product and goes on. -/
theorem executes (h : engine.Yields branches node product) {frame after : Frame}
    {ending : Ending FlowError Resolution}
    (hexecutes : Executes engine branches node env frame ending after) :
    ∃ record, ending = .ok (.reached record) ∧ record.returned? = none ∧ record.id = node.id ∧
      record.product = product ∧ after.scope = (frame.scope.start node.id).insert record := by
  obtain ⟨block, hcreate, hyields⟩ := h
  obtain ⟨⟨ran, world⟩, hblock⟩ : ∃ run, block (engine.context branches node env)
    (frame.world.note (.started node.id node.type)) = run := ⟨_, rfl⟩
  have hran := hyields env (frame.world.note (.started node.id node.type))
  rw [hblock] at hran
  obtain ⟨output, rfl, hreturned, houtcome, hresult⟩ | ⟨failure, rfl, hcontained, houtcome, hresult⟩
    := hran
  · obtain ⟨rfl, rfl⟩ := hexecutes.unique (.succeeded hcreate hblock)
    refine ⟨_, rfl, hreturned, rfl, ?_, rfl⟩
    rw [Record.product, Output.record, houtcome, hresult]
  · obtain ⟨rfl, rfl⟩ := hexecutes.unique
      (.contained hcreate hblock (Failure.contained_iff.mp hcontained))
    refine ⟨_, rfl, rfl, rfl, ?_, rfl⟩
    rw [Record.product, Failure.record, houtcome, hresult]

end Yields

/-- What is known of the components stays true of the records of a run. -/
theorem keeps_produced (hyields : ∀ node ∈ nodes, engine.Yields branches node (assigned node)) :
    engine.Keeps branches nodes env fun frame =>
      frame.scope.Indexed ∧ Produced nodes assigned frame.scope.records where
  enter frame id h := ⟨h.1.enter id, h.2⟩
  leave frame id h := ⟨h.1.leave id, h.2⟩
  execute := by
    intro node frame between after attempts result fired ending hnode hframe hbetween henters
      hgathers _ hexecutes
    obtain ⟨record, _, _, hid, hproduct, hafter⟩ := (hyields node hnode).executes hexecutes
    have hnew := (hgathers.unrecorded hframe.1 henters).2
    obtain ⟨hindexed, hrecords⟩ := hbetween.1.insert_start hnew hid
    rw [hafter]
    refine ⟨hindexed, ?_⟩
    rw [hrecords]
    exact hbetween.2.snoc hnode hid hproduct

/-- A run whose attempts all pass ends without a return value, unless its graph is malformed. -/
theorem Concludes.of_passed {attempts : List Attempt} {outcome : Ending FlowError (Option Json)}
    (h : Concludes attempts outcome) (hpassed : ∀ attempt ∈ attempts, attempt.outcome = .ok none) :
    outcome = .ok none ∨ ∃ e, outcome = .error (.graph e) := by
  induction h with
  | quiet => exact Or.inl rfl
  | malformed e => exact Or.inr ⟨e, rfl⟩
  | last hends => exact absurd (hpassed _ List.mem_cons_self) hends
  | passed _ _ ih => exact ih (List.forall_mem_cons.mp hpassed).2

/-- A run of components that are known to produce something comes to its end, and the components
that it records agree with the firing rule. -/
theorem runNodes_of_yields (hordered : Ordered nodes)
    (hyields : ∀ node ∈ nodes, engine.Yields branches node (assigned node)) (env : Environment)
    (world : World) :
    ∃ after, engine.runNodes branches nodes env { world } = (.ok none, after) ∧
      after.scope.Indexed ∧ Produced nodes assigned after.scope.records ∧
      Agrees nodes assigned (Recorded after.scope.records) := by
  obtain ⟨⟨ending, after⟩, hrun⟩ : ∃ run, engine.runNodes branches nodes env { world } = run :=
    ⟨_, rfl⟩
  obtain ⟨attempts, hpulls⟩ := engine.pulls_runNodes branches nodes env { world }
  rw [hrun] at hpulls
  have hterminals : ∀ node ∈ terminals nodes, node ∈ nodes := fun _ => mem_of_mem_terminals
  obtain ⟨hindexed, hproduced⟩ := hpulls.keeps (keeps_produced hyields) hterminals ⟨.empty, .nil⟩
  have hpassed : ∀ attempt ∈ attempts, attempt.outcome = .ok none := by
    intro attempt hattempt
    have hnode := hpulls.mem_nodes hterminals attempt hattempt
    obtain ⟨record, hending, hreturned, _⟩ :=
      (hyields attempt.node hnode).executes (hpulls.executes attempt hattempt)
    rw [Attempt.outcome, hending, ← hreturned]
    rfl
  have hgraph := hpulls.ne_graph hordered.identified hordered.acyclic
    (fun node hnode => (hyields node hnode).registered) hterminals
    fun _ _ hresolving => absurd hresolving List.not_mem_nil
  obtain rfl | ⟨e, rfl⟩ :=
    (hpulls.concludes .empty (List.forall_mem_nil _)).of_passed hpassed
  · obtain ⟨_, hsettled⟩ := hpulls.orderly hordered .empty hterminals
    refine ⟨after, hrun, hindexed, hproduced, hproduced.agrees hordered.identified ?_⟩
    intro node hnode
    obtain ⟨terminal, hterminal, hpath⟩ := hordered.acyclic.exists_terminal hnode
    exact hsettled rfl terminal hterminal node hpath
  · exact absurd rfl (hgraph e)

/-- Runs of the same components, listed in different orders, end alike and record the same
components with the same outcomes and results, if it is known of every component what it produces.
Neither the environment of the run nor the world it starts in matters. -/
theorem runNodes_of_perm (hordered : Ordered nodes) (hperm : nodes.Perm others) (engine : Engine)
    (branches : Branches) (assigned : Node → Product)
    (hyields : ∀ node ∈ nodes, engine.Yields branches node (assigned node))
    (env otherEnv : Environment) (world otherWorld : World) :
    ∃ after other,
      engine.runNodes branches nodes env { world } = (.ok none, after) ∧
      engine.runNodes branches others otherEnv { world := otherWorld } = (.ok none, other) ∧
      (after.scope.records.map Record.id).Nodup ∧
      (after.scope.records.map fun record => (record.id, record.product)).Perm
        (other.scope.records.map fun record => (record.id, record.product)) ∧
      ∀ record ∈ after.scope.records, ∃ node ∈ nodes,
        node.id = record.id ∧ record.product = assigned node := by
  have hotherOrdered := hordered.of_perm hperm
  have hotherYields : ∀ node ∈ others, engine.Yields branches node (assigned node) :=
    fun node hnode => hyields node (hperm.mem_iff.mpr hnode)
  obtain ⟨after, hrun, hindexed, hproduced, hagrees⟩ :=
    runNodes_of_yields hordered hyields env world
  obtain ⟨other, hotherRun, hotherIndexed, hotherProduced, hotherAgrees⟩ :=
    runNodes_of_yields hotherOrdered hotherYields otherEnv otherWorld
  have hrecorded : ∀ node ∈ nodes,
      Recorded after.scope.records node ↔ Recorded other.scope.records node := fun _ =>
    hagrees.unique (hotherAgrees.of_perm hperm) hordered.acyclic
  have hkeys : ∀ records : List Record, (records.map Record.id).Nodup →
      (records.map fun record => (record.id, record.product)).Nodup := by
    intro records hnodup
    refine .of_map Prod.fst ?_
    rwa [List.map_map]
  refine ⟨after, other, hrun, hotherRun, hindexed.nodup, ?_, hproduced⟩
  refine (List.perm_ext_iff_of_nodup (hkeys _ hindexed.nodup) (hkeys _ hotherIndexed.nodup)).mpr ?_
  rintro ⟨id, product⟩
  rw [hproduced.mem_iff hordered.identified, hotherProduced.mem_iff hotherOrdered.identified]
  refine exists_congr fun node => ?_
  rw [hperm.mem_iff]
  exact and_congr_right fun hnode =>
    and_congr_left fun _ => hrecorded node (hperm.mem_iff.mpr hnode)

end Engine

namespace Sample

/-- An environment with a variable that no component reads. -/
def user : Environment := .ofList [("user", .text "u")]

/-- What the forked components produce: `a` chooses an edge, and the others succeed. -/
def forkedProduct (node : Node) : Product :=
  ⟨if node.id = "a" then some "true" else some successLabel, .null⟩

/-- The forked components succeed with these products in every environment. -/
theorem yields_forked :
    ∀ node ∈ forked, runner.Yields runner.nested node (forkedProduct node) := by
  intro node hnode
  simp only [forked, List.mem_cons, List.not_mem_nil, or_false] at hnode
  rcases hnode with rfl | rfl | rfl | rfl <;>
  · exact ⟨Scripted.block, rfl, fun env world => Or.inl ⟨_, rfl, rfl, rfl, rfl⟩⟩

end Sample

/-- Listed in reverse, the forked components are pulled in another order. -/
theorem Engine.runNodes_of_perm_forked :
    ∃ after other,
      Sample.run = (.ok none, after) ∧
      Sample.runner.runNodes Sample.runner.nested Sample.forked.reverse Sample.user {} =
        (.ok none, other) ∧
      (after.scope.records.map fun record => (record.id, record.product)).Perm
        (other.scope.records.map fun record => (record.id, record.product)) := by
  obtain ⟨after, other, hrun, hother, _, hperm, _⟩ :=
    Engine.runNodes_of_perm Sample.ordered_forked Sample.forked.reverse_perm.symm
      Sample.runner.toEngine Sample.runner.nested Sample.forkedProduct Sample.yields_forked .empty
      Sample.user {} {}
  exact ⟨after, other, hrun, hother, hperm⟩

end Workflow
