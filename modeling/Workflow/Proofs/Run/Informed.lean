import Workflow.Proofs.Environment
import Workflow.Proofs.Run.Pruned

namespace Workflow

variable {nodes : List Node} {base : Environment} {records : List Record}

/-- The environment of a component that runs after those of the records. -/
def informedEnv (nodes : List Node) (base : Environment) (records : List Record) (node : Node) :
    Environment :=
  base.extend
    [("result", latestResult records (dependencies node nodes) .null),
      ("results", .object (records.map fun record => (record.id, record.result)))]

/-- Every component saw what those recorded before it left. -/
def Informed (nodes : List Node) (base : Environment) (records : List Record) : Prop :=
  ∀ k record, records[k]? = some record →
    ∃ node ∈ nodes, node.id = record.id ∧
      record.env = informedEnv nodes base (records.take k) node

theorem Informed.nil : Informed nodes base [] := nofun

/-- A component that sees what the recorded ones have left keeps the records informed. -/
theorem Informed.snoc (h : Informed nodes base records) {node : Node} {record : Record}
    (hnode : node ∈ nodes) (hid : record.id = node.id)
    (henv : record.env = informedEnv nodes base records node) :
    Informed nodes base (records ++ [record]) :=
  forall_take_snoc
    (P := fun earlier record =>
      ∃ node ∈ nodes, node.id = record.id ∧ record.env = informedEnv nodes base earlier node)
    h ⟨node, hnode, hid.symm, henv⟩

namespace Engine

variable {engine : Engine} {branches : Branches}

/-- In a timely scope, executing a component keeps what all recorded components saw. -/
theorem keeps_informed (engine : Engine) (branches : Branches) (hids : Identified nodes)
    (base : Environment) :
    engine.Keeps branches nodes base fun frame =>
      frame.scope.Timely nodes engine.registry.contains ∧
        Informed nodes base frame.scope.records where
  enter _ id h := ⟨h.1.enter id, h.2⟩
  leave _ id h := ⟨h.1.leave id, h.2⟩
  execute := by
    rintro node frame between after attempts result fired ending hnode ⟨htimely, _⟩
      ⟨hbetween, hinformed⟩ henters hgathers hreached hexecutes
    obtain ⟨_, hready⟩ := hgathers.timely hids (fun _ => rfl) (htimely.enter node.id)
      (fun _ => mem_of_mem_dependencies)
    -- A producer that was found unreached is not recorded while later ones are resolved, so the last
    -- result gathered is the latest one in the scope as it is now.
    obtain ⟨_, _, rfl⟩ := hready _ _ rfl
    obtain ⟨hindexed, hnew⟩ := hgathers.unrecorded htimely.indexed henters
    refine ⟨(engine.keeps_timely branches hids base).execute hnode htimely hbetween henters hgathers
      hreached hexecutes, ?_⟩
    obtain ⟨_, ⟨record, hleaves, hrecords, _⟩ | ⟨_, _, _, hrecords, _⟩⟩ :=
      hexecutes.appends hindexed hnew
    · rw [hrecords]
      exact hinformed.snoc hnode hleaves.id_eq hleaves.env_eq
    · rw [hrecords]
      exact hinformed

/-- The environment in which a component of a run was executed is that of the run, with the result of
the last component in the order of its dependencies that was recorded before it, on whatever
outcome, and the results of all that were recorded before it. All other names are bound as they were
for the run, and none moves from its place. -/
theorem runNodes_informed (engine : Engine) (branches : Branches) (hids : Identified nodes)
    (base : Environment) (world : World)
    (hrun : (engine.runNodes branches nodes base { world }).2.scope.records = records)
    {k : Nat} {record : Record} (hrecord : records[k]? = some record) :
    ∃ node ∈ nodes, node.id = record.id ∧
      ∃ result results,
        result = latestResult (records.take k) (dependencies node nodes) .null ∧
        results = .object ((records.take k).map fun earlier => (earlier.id, earlier.result)) ∧
        record.env = base.extend [("result", result), ("results", results)] ∧
        record.env.get? "result" = some result ∧
        record.env.get? "results" = some results ∧
        (∀ name, name ≠ "result" → name ≠ "results" → record.env.get? name = base.get? name) ∧
        record.env.vars.keys =
          base.vars.keys ++ ["result", "results"].filter (· ∉ base.vars.keys) := by
  have hbefore : ({ world } : Frame).scope.Timely nodes engine.registry.contains ∧
      Informed nodes base ({ world } : Frame).scope.records := ⟨.empty, .nil⟩
  obtain ⟨_, hinformed⟩ := (engine.keeps_informed branches hids base).runNodes hbefore
  rw [hrun] at hinformed
  obtain ⟨node, hnode, hid, henv⟩ := hinformed k record hrecord
  refine ⟨node, hnode, hid, _, _, rfl, rfl, henv, ?_, ?_, ?_, ?_⟩
  · rw [henv, informedEnv, Environment.get?_extend_of_mem (by simp) List.mem_cons_self]
  · rw [henv, informedEnv, Environment.get?_extend_of_mem (by simp)
      (List.mem_cons_of_mem _ List.mem_cons_self)]
  · intro name hresult hresults
    rw [henv, informedEnv, Environment.get?_extend_of_notMem (by simp [hresult, hresults])]
  · rw [henv, informedEnv, Environment.keys_extend (by simp)]
    rfl

end Engine

namespace Sample

/-- The component `c` depends on `a` and on `b`. Only the edge from `a` is followed. -/
def joined : List Node :=
  [{ id := "a", type := "scripted", parent? := some "w", content := [("value", .int 1)]
     outs := [⟨"success", "c"⟩] },
   { id := "b", type := "scripted", parent? := some "w", content := [("value", .int 2)]
     outs := [⟨"error", "c"⟩] },
   { id := "c", type := "scripted", parent? := some "w" }]

/-- An environment that has a result already. -/
def outer : Environment := .ofList [("result", .text "outer"), ("user", .text "u")]

end Sample

/-- The result that `c` sees is that of `b`, in the place of the one from outside the run. -/
theorem Engine.runNodes_informed_joined :
    ∃ records record,
      Identified Sample.joined ∧
      (Sample.runner.toEngine.runNodes Sample.runner.nested Sample.joined Sample.outer
        {}).2.scope.records = records ∧
      records[2]? = some record ∧ record.id = "c" ∧
      record.env.get? "result" = some (.int 2) ∧
      record.env.get? "results" = some (.object [("a", .int 1), ("b", .int 2)]) ∧
      record.env.get? "user" = Sample.outer.get? "user" ∧
      record.env.vars.keys = ["result", "user", "results"] := by
  have hids : Identified Sample.joined := identified_of_nodup (by decide)
  obtain ⟨records, hrun⟩ : ∃ records, (Sample.runner.toEngine.runNodes Sample.runner.nested
      Sample.joined Sample.outer {}).2.scope.records = records := ⟨_, rfl⟩
  have hkept : (Sample.runner.toEngine.runNodes Sample.runner.nested Sample.joined Sample.outer
      {}).2.scope.records.map (fun record => (record.id, record.result)) =
        [("a", .int 1), ("b", .int 2), ("c", .null)] := by cbv
  have hresult : (Sample.runner.toEngine.runNodes Sample.runner.nested Sample.joined Sample.outer
      {}).2.scope.records[2]?.map (fun record => (record.id, record.env.get? "result")) =
        some ("c", some (.int 2)) := by cbv
  rw [hrun] at hkept hresult
  obtain ⟨record, hrecord, hsees⟩ := Option.map_eq_some_iff.mp hresult
  obtain ⟨hid, hsees⟩ := Prod.mk.inj hsees
  obtain ⟨_, _, _, _, results, _, hresults, _, _, hbound, hothers, hkeys⟩ :=
    Engine.runNodes_informed _ _ hids _ {} hrun hrecord
  refine ⟨records, record, hids, hrun, hrecord, hid, hsees, ?_, ?_, ?_⟩
  · rw [hbound, hresults, List.map_take, hkept]
    rfl
  · exact hothers "user" (by decide) (by decide)
  · rw [hkeys]
    decide

end Workflow
