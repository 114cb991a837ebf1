import Workflow.Proofs.Run.Once

namespace Workflow

/-- No record has a return value. -/
def Quiet (records : List Record) : Prop := ∀ record ∈ records, record.returned? = none

/-- The records after a run has come to an ending. A return value is the last record's, and no other
record has one. -/
def Returns (records : List Record) : Ending FlowError (Option Json) → Prop
  | .ok (some value) => ∃ earlier last,
      records = earlier ++ [last] ∧ Quiet earlier ∧ last.returned? = some value
  | _ => Quiet records

/-- The return value that resolving a component has met. -/
def Resolution.value? : Resolution → Option Json
  | .reached record => record.returned?
  | .unreached => none
  | .returned value => some value

/-- The return value that gathering for a component has met. -/
def Gathered.value? : Gathered → Option Json
  | .ready _ _ => none
  | .returned value => some value

/-- A record of any return value may follow records without one. -/
theorem Returns.snoc {records : List Record} (hquiet : Quiet records) (record : Record) :
    Returns (records ++ [record]) (.ok record.returned?) := by
  cases hvalue : record.returned? with
  | none => exact List.forall_mem_append.mpr ⟨hquiet, List.forall_mem_singleton.mpr hvalue⟩
  | some value => exact ⟨records, record, rfl, hquiet, hvalue⟩

theorem Returns.halted {records : List Record} (hquiet : Quiet records) (halt : Halt FlowError) :
    Returns records halt.ending := by
  cases halt <;> exact hquiet

namespace Engine

variable {engine : Engine} {branches : Branches} {nodes : List Node} {env : Environment}

/-- Executing a component adds at most its own record, so a return value is that record's. -/
theorem Executes.returns {node : Node} {frame after : Frame} {ending : Ending FlowError Resolution}
    (h : Executes engine branches node env frame ending after) (hindexed : frame.scope.Indexed)
    (hnew : frame.scope.get? node.id = none) (hquiet : Quiet frame.scope.records) :
    Returns after.scope.records (ending.map Resolution.value?) := by
  obtain ⟨_, ⟨record, _, hrecords, _, rfl | ⟨hvalue, e, rfl⟩⟩ | ⟨halt, _, rfl, hrecords, _⟩⟩ :=
    h.appends hindexed hnew
  · rw [hrecords]
    exact .snoc hquiet record
  · rw [hrecords]
    exact List.forall_mem_append.mpr ⟨hquiet, List.forall_mem_singleton.mpr hvalue⟩
  · rw [hrecords, Halt.map_ending]
    exact .halted hquiet halt

mutual

/-- From records without a return value, a component is resolved without one, or what it has met is
set by the last record. -/
theorem Resolves.returns {node : Node} {frame after : Frame} {attempts : List Attempt}
    {ending : Ending FlowError Resolution}
    (h : Resolves engine branches nodes env node frame attempts ending after)
    (hindexed : frame.scope.Indexed) (hquiet : Quiet frame.scope.records) :
    Returns after.scope.records (ending.map Resolution.value?) := by
  match h with
  | .unregistered _ => exact hquiet
  | .recorded _ hrecord =>
    have hvalue := hquiet _ (hindexed.get?_eq_some_iff.mp hrecord).1
    simp only [Ending.map, Resolution.value?, hvalue]
    exact hquiet
  | .cyclic _ _ _ => exact hquiet
  | .halted _ hgathers =>
    have hreturns := hgathers.returns (hindexed.enter node.id) hquiet
    rwa [Halt.map_ending] at hreturns ⊢
  | .returned _ hgathers => exact hgathers.returns (hindexed.enter node.id) hquiet
  | .unreached _ hgathers _ => exact hgathers.returns (hindexed.enter node.id) hquiet
  | .executed henters hgathers _ hexecutes =>
    have hbetween : Quiet _ := hgathers.returns (hindexed.enter node.id) hquiet
    obtain ⟨hbetweenIndexed, hnew⟩ := hgathers.unrecorded hindexed henters
    exact hexecutes.returns hbetweenIndexed hnew hbetween

/-- Gathering stops at the first dependency that sets a return value, whose record is then the last
one. -/
theorem Gathers.returns {needed : List (Node × String)} {result : Json} {fired : Bool}
    {frame after : Frame} {attempts : List Attempt} {ending : Ending FlowError Gathered}
    (h : Gathers engine branches nodes env needed result fired frame attempts ending after)
    (hindexed : frame.scope.Indexed) (hquiet : Quiet frame.scope.records) :
    Returns after.scope.records (ending.map Gathered.value?) := by
  match h with
  | .done => exact hquiet
  | .halted hresolves =>
    have hreturns := hresolves.returns hindexed hquiet
    rwa [Halt.map_ending] at hreturns ⊢
  | .returned hresolves => exact hresolves.returns hindexed hquiet
  | .unreached hresolves hrest =>
    exact hrest.returns (hresolves.indexed hindexed) (hresolves.returns hindexed hquiet)
  | .ended hresolves hvalue =>
    have hreturns := hresolves.returns hindexed hquiet
    simp only [Ending.map, Resolution.value?, hvalue] at hreturns
    exact hreturns
  | .reached hresolves hvalue hrest =>
    have hreturns := hresolves.returns hindexed hquiet
    simp only [Ending.map, Resolution.value?, hvalue] at hreturns
    exact hrest.returns (hresolves.indexed hindexed) hreturns

end

/-- A run ends with a return value as soon as a record has one. -/
theorem Pulls.returns {pulled : List Node} {frame after : Frame} {attempts : List Attempt}
    {ending : Ending FlowError (Option Json)}
    (h : Pulls engine branches nodes env pulled frame attempts ending after)
    (hindexed : frame.scope.Indexed) (hquiet : Quiet frame.scope.records) :
    Returns after.scope.records ending := by
  induction h with
  | done => exact hquiet
  | halted hresolves =>
    have hreturns := hresolves.returns hindexed hquiet
    rwa [Halt.map_ending] at hreturns
  | returned hresolves => exact hresolves.returns hindexed hquiet
  | ended hresolves hvalue =>
    have hreturns := hresolves.returns hindexed hquiet
    simp only [Ending.map, Resolution.value?, hvalue] at hreturns
    exact hreturns
  | unreached hresolves _ ih =>
    exact ih (hresolves.indexed hindexed) (hresolves.returns hindexed hquiet)
  | reached hresolves hvalue _ ih =>
    have hreturns := hresolves.returns hindexed hquiet
    simp only [Ending.map, Resolution.value?, hvalue] at hreturns
    exact ih (hresolves.indexed hindexed) hreturns

/-- A run of components in a fresh scope ends with a return value just if the last record has it.
All other records are without one, and so is the last if the run ends in any other way; nothing is
started after the component that set it. -/
theorem runNodes_returns (engine : Engine) (branches : Branches) (nodes : List Node)
    (env : Environment) (world : World) :
    let run := engine.runNodes branches nodes env { world }
    (∀ value, run.1 = .ok (some value) ↔
      ∃ last, run.2.scope.records.getLast? = some last ∧ last.returned? = some value) ∧
    (∀ record ∈ run.2.scope.records.dropLast, record.returned? = none) ∧
    ((∀ value, run.1 ≠ .ok (some value)) →
      ∀ record ∈ run.2.scope.records, record.returned? = none) ∧
    (∀ value, run.1 = .ok (some value) →
      run.2.scope.started = run.2.scope.records.map Record.id) := by
  intro run
  obtain ⟨attempts, hpulls⟩ := engine.pulls_runNodes branches nodes env { world }
  have hreturns := hpulls.returns .empty fun _ => nofun
  obtain ⟨new, broken, hadds, hbroken⟩ := hpulls.adds .empty
  generalize run.1 = ending at *
  generalize run.2.scope = scope at *
  by_cases hvalue : ∃ value, ending = .ok (some value)
  · obtain ⟨value, rfl⟩ := hvalue
    obtain ⟨earlier, last, hrecords, hquiet, hlast⟩ := hreturns
    obtain rfl := hbroken trivial
    have hstarted : scope.started = scope.records.map Record.id := by
      rw [hadds.started, hadds.records]
      simp
    refine ⟨fun other => by simp [hrecords, hlast], ?_, fun h => absurd rfl (h value),
      fun _ _ => hstarted⟩
    rw [hrecords, List.dropLast_concat]
    exact hquiet
  · have hquiet : Quiet scope.records := by
      match ending, hreturns with
      | .ok none, hquiet => exact hquiet
      | .ok (some value), _ => exact absurd ⟨value, rfl⟩ hvalue
      | .error _, hquiet => exact hquiet
      | .crashed _, hquiet => exact hquiet
      | .tooDeep, hquiet => exact hquiet
    refine ⟨fun value => ⟨fun h => absurd ⟨value, h⟩ hvalue, ?_⟩,
      fun record h => hquiet record (List.mem_of_mem_dropLast h), fun _ => hquiet,
      fun value h => absurd ⟨value, h⟩ hvalue⟩
    rintro ⟨last, hlast, hreturned⟩
    rw [hquiet last (List.mem_of_getLast? hlast)] at hreturned
    cases hreturned

end Engine

end Workflow
