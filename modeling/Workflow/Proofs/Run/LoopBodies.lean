import Workflow.Proofs.Block.Tagged
import Workflow.Proofs.Run.Pruned

namespace Workflow

variable {nodes : List Node} {bodies : Set Node} {records : List Record}

/-- Each component of the set depends on something, and only on `loop` edges of for-each components
and on components of the set. They may wait for each other. -/
def Looped (nodes : List Node) (bodies : Set Node) : Prop :=
  ∀ node ∈ bodies, node ∈ nodes ∧ dependencies node nodes ≠ [] ∧
    ∀ dependency ∈ dependencies node nodes,
      dependency.1.type = ForEach.type ∧ dependency.2 = ForEach.loopLabel ∨ dependency.1 ∈ bodies

/-- The components that can only be reached through `loop` edges of for-each components. -/
def loopBodies (nodes : List Node) : Set Node :=
  ⋃₀ {bodies | Looped nodes bodies}

/-- A set of components that only wait for loop edges and for each other consists of loop bodies. -/
theorem Looped.subset_loopBodies (h : Looped nodes bodies) : bodies ⊆ loopBodies nodes :=
  Set.subset_sUnion_of_mem h

/-- The union of such sets is one, since what a component depends on is in the same set as it is. -/
theorem looped_loopBodies (nodes : List Node) : Looped nodes (loopBodies nodes) := by
  rintro node ⟨bodies, hlooped, hmem⟩
  obtain ⟨hnode, hneeded, hbehind⟩ := hlooped node hmem
  refine ⟨hnode, hneeded, fun dependency hdependency => ?_⟩
  exact (hbehind dependency hdependency).imp_right fun h => hlooped.subset_loopBodies h

/-- The loop bodies are the greatest such set. -/
theorem isGreatest_loopBodies (nodes : List Node) :
    IsGreatest {bodies | Looped nodes bodies} (loopBodies nodes) :=
  ⟨looped_loopBodies nodes, fun _ => Looped.subset_loopBodies⟩

theorem mem_of_mem_loopBodies {node : Node} (h : node ∈ loopBodies nodes) : node ∈ nodes :=
  (looped_loopBodies nodes node h).1

/-- No for-each component is recorded with the outcome that its `loop` edges are labelled with. -/
def Unlooped (nodes : List Node) (records : List Record) : Prop :=
  ∀ node ∈ nodes, node.type = ForEach.type → ¬ Followed records (node, ForEach.loopLabel)

namespace Unlooped

theorem nil : Unlooped nodes [] := by
  rintro node _ _ ⟨record, hrecord, _⟩
  cases hrecord

/-- Records stay unlooped when a for-each component is recorded with another outcome. -/
theorem snoc (h : Unlooped nodes records) (hids : Identified nodes) {node : Node} {record : Record}
    (hnode : node ∈ nodes) (hid : record.id = node.id)
    (houtcome : node.type = ForEach.type → record.outcome? ≠ some ForEach.loopLabel) :
    Unlooped nodes (records ++ [record]) := by
  rintro other hother htype ⟨found, hfound, hfoundId, hlooped⟩
  rcases List.mem_append.mp hfound with hold | hlast
  · exact h other hother htype ⟨found, hold, hfoundId, hlooped⟩
  · obtain rfl := List.mem_singleton.mp hlast
    obtain rfl := hids node hnode other hother (hid.symm.trans hfoundId)
    exact houtcome htype hlooped

/-- A component that fires is no loop body while none of those is recorded: the edge that it fires by
would have to be a `loop` edge or come from a loop body. -/
theorem notMem_loopBodies (h : Unlooped nodes records)
    (hunrecorded : ∀ body ∈ loopBodies nodes, ¬ Recorded records body) {node : Node}
    (hfires : Fires nodes records node) : node ∉ loopBodies nodes := by
  intro hmem
  obtain ⟨_, hneeded, hbehind⟩ := looped_loopBodies nodes node hmem
  obtain hfree | ⟨⟨producer, label⟩, hdependency, hfollowed⟩ := hfires
  · exact hneeded hfree
  · obtain ⟨htype, rfl⟩ | hbody := hbehind _ hdependency
    · exact h producer (mem_of_mem_dependencies hdependency) htype hfollowed
    · exact hunrecorded producer hbody hfollowed.recorded

end Unlooped

/-- A for-each block that succeeds has the conventional outcome. -/
theorem ForEach.outcome?_of_ok {ctx : Context} {world after : World} {output : Output}
    (hblock : block ctx world = (.ok output, after)) : output.outcome? = some successLabel := by
  obtain ⟨value, between, _, hlast⟩ | ⟨halt, _, hending⟩ := Step.bind_cases hblock
  · cases hlast
    rfl
  · exact absurd hending.symm (halt.ending_ne_ok _)

/-- What keeps the loop bodies out of a scope: no `loop` edge is followed in it, and none of them
is there to follow another edge from. -/
structure Scope.Confined (nodes : List Node) (known : String → Bool) (scope : Scope) : Prop where
  timely : scope.Timely nodes known
  unlooped : Unlooped nodes scope.records
  avoids : scope.Avoids nodes (· ∈ loopBodies nodes)

theorem Scope.Confined.empty {known : String → Bool} : Scope.Confined nodes known {} :=
  ⟨.empty, .nil, .empty⟩

namespace Engine

variable {engine : Engine} {branches : Branches} {env : Environment}

section ForEach

variable
  (hforEach : ∀ type, engine.registry.find? ForEach.type = some type → type = ForEach.blockType)
include hforEach

/-- The block of a for-each component succeeds and fails with the conventional outcomes. -/
theorem Leaves.outcome?_ne_loop {node : Node} {world : World} {record : Record}
    (h : Leaves engine branches node env world record) (htype : node.type = ForEach.type) :
    record.outcome? ≠ some ForEach.loopLabel := by
  cases h with
  | @succeeded _ output _ hcreate hblock =>
    obtain rfl := Registry.eq_forEach_of_create hforEach hcreate htype
    have houtcome : (output.record node env).outcome? = some successLabel :=
      ForEach.outcome?_of_ok hblock
    rw [houtcome]
    decide
  | @failed _ failure _ hcreate hblock =>
    obtain rfl := Registry.eq_forEach_of_create hforEach hcreate htype
    have houtcome : (failure.record node env).outcome? = some errorLabel :=
      ForEach.tame.tagged node _ rfl _ _ _ _ hblock
    rw [houtcome]
    decide

/-- Every step of a run keeps the loop bodies out of its scope. -/
theorem keeps_confined (branches : Branches) (hids : Identified nodes) (env : Environment) :
    engine.Keeps branches nodes env fun frame =>
      frame.scope.Confined nodes engine.registry.contains where
  enter _ id h := ⟨h.timely.enter id, h.unlooped, h.avoids⟩
  leave _ id h := ⟨h.timely.leave id, h.unlooped, h.avoids⟩
  execute := by
    intro node frame between after attempts result fired ending hnode hframe hbetween henters
      hgathers hreached hexecutes
    -- It fires by what is recorded now, after its dependencies were resolved, so what is known of
    -- `between` is what keeps the loop bodies out.
    have hfires := hgathers.fires hids hframe.timely hreached
    have hoff : node ∉ loopBodies nodes := hbetween.unlooped.notMem_loopBodies
      (fun body hbody => hbetween.avoids.not_recorded body (mem_of_mem_loopBodies hbody) hbody)
      hfires
    obtain ⟨hindexed, hnew⟩ := hgathers.unrecorded hframe.timely.indexed henters
    refine ⟨(engine.keeps_timely branches hids env).execute hnode hframe.timely hbetween.timely
      henters hgathers hreached hexecutes, ?_,
      hexecutes.avoids hids hindexed hnew hnode hoff hbetween.avoids⟩
    obtain ⟨_, ⟨record, hleaves, hrecords, _⟩ | ⟨_, _, _, hrecords, _⟩⟩ :=
      hexecutes.appends hindexed hnew
    · rw [hrecords]
      exact hbetween.unlooped.snoc hids hnode hleaves.id_eq (hleaves.outcome?_ne_loop hforEach)
    · rw [hrecords]
      exact hbetween.unlooped

end ForEach

/-- However a run of components in a fresh scope ends, and however often it comes to them, it neither
starts nor records a loop body in that scope: none of the components in the largest set of those
that depend on something, but only on `loop` edges of for-each components and on each other. That
the for-each block is the standard one is all that matters of the block types. -/
theorem runNodes_spares_loopBodies (hids : Identified nodes) (engine : Engine)
    (hforEach : ∀ type, engine.registry.find? ForEach.type = some type → type = ForEach.blockType)
    (branches : Branches) (env : Environment) (world : World) :
    let run := engine.runNodes branches nodes env { world }
    IsGreatest {bodies | Looped nodes bodies} (loopBodies nodes) ∧
      ∀ node ∈ loopBodies nodes,
        node.id ∉ run.2.scope.started ∧ node.id ∉ run.2.scope.records.map Record.id := by
  intro run
  refine ⟨isGreatest_loopBodies nodes, fun node hbody => ?_⟩
  have hbefore : ({ world } : Frame).scope.Confined nodes engine.registry.contains := .empty
  have hafter := (keeps_confined hforEach branches hids env).runNodes hbefore
  exact hafter.avoids node (mem_of_mem_loopBodies hbody) hbody

end Engine

namespace Sample

/-- Repeats `b` for two items. -/
def repeated : Node :=
  { id := "f", type := ForEach.type, parent? := some "w"
    content := [("items", .list [.text "x", .text "y"])]
    outs := [⟨ForEach.loopLabel, "b"⟩, ⟨successLabel, "r"⟩] }

def inLoop : Node :=
  { id := "b", type := LogMessage.type, parent? := some "w"
    content := [("message", .text "@\x7bitem\x7d")], outs := [⟨successLabel, "c"⟩] }

def afterBody : Node :=
  { id := "c", type := LogMessage.type, parent? := some "w" }

/-- A loop over two items, its body, what comes after that, and a component that returns what the loop
results in. -/
def looping : List Node :=
  [repeated, inLoop, afterBody,
   { id := "r", type := ReturnValue.type, parent? := some "w"
     content := [("value", .text "@\x7bresult\x7d")] }]

def loopingEngine : Engine where
  registry := .standard
  tree :=
    { nodes := { id := "w", type := Node.workflowType } :: looping
      distinct := by decide +kernel }

/-- A run of the components. -/
def loopingRun : Ending FlowError (Option Json) × Frame :=
  loopingEngine.runNodes (loopingEngine.branches 1) looping .empty {}

/-- The body of the loop and what comes after it wait for nothing but the loop edge. -/
theorem looped_looping : Looped looping {inLoop, afterBody} := by
  have hinLoop : dependencies inLoop looping = [(repeated, ForEach.loopLabel)] := rfl
  have hafter : dependencies afterBody looping = [(inLoop, successLabel)] := rfl
  rintro node (rfl | rfl)
  · rw [hinLoop]
    exact ⟨by simp [looping], by simp, List.forall_mem_singleton.mpr (Or.inl ⟨rfl, rfl⟩)⟩
  · rw [hafter]
    exact ⟨by simp [looping], by simp, List.forall_mem_singleton.mpr (Or.inr (Or.inl rfl))⟩

end Sample

/-- The component in the loop is started twice, both times elsewhere. -/
theorem Engine.runNodes_spares_loopBodies_looping :
    Identified Sample.looping ∧
      (∀ type, Sample.loopingEngine.registry.find? ForEach.type = some type →
        type = ForEach.blockType) ∧
      Sample.loopingRun.2.scope.records.map Record.id = ["f", "r"] ∧
      Sample.loopingRun.2.world.startedOf LogMessage.type = ["b", "b"] ∧
      ∀ node ∈ [Sample.inLoop, Sample.afterBody], node ∈ loopBodies Sample.looping ∧
        node.id ∉ Sample.loopingRun.2.scope.started ∧
        node.id ∉ Sample.loopingRun.2.scope.records.map Record.id := by
  have hids : Identified Sample.looping := identified_of_nodup (by decide)
  have hforEach := Registry.withinStandard_standard.find?_forEach
  obtain ⟨_, hspared⟩ := Engine.runNodes_spares_loopBodies hids Sample.loopingEngine hforEach
    (Sample.loopingEngine.branches 1) .empty {}
  refine ⟨hids, hforEach, by decide +kernel, by decide +kernel, fun node hnode => ?_⟩
  have hbody : node ∈ loopBodies Sample.looping :=
    Sample.looped_looping.subset_loopBodies (by simpa using hnode)
  rw [Sample.loopingRun]
  exact ⟨hbody, hspared node hbody⟩

end Workflow
