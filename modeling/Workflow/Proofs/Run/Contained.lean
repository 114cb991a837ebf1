import Workflow.Proofs.Block.Tagged
import Workflow.Proofs.Run.Attempts

namespace Workflow

/-- The outcome of the failure labels an edge of the component, inside the run or out of it. -/
def Failure.Contained (failure : Failure) (node : Node) : Prop :=
  ∃ out ∈ node.outs, failure.outcome? = some out.label

/-- A failure is contained just if it has an outcome that the component handles. -/
theorem Failure.contained_iff {failure : Failure} {node : Node} :
    failure.Contained node ↔ failure.outcome?.any node.handles = true := by
  simp only [Failure.Contained, Option.any_eq_true, Node.handles, List.any_eq_true, beq_iff_eq]
  constructor
  · rintro ⟨out, hout, houtcome⟩
    exact ⟨out.label, houtcome, out, hout, rfl⟩
  · rintro ⟨label, houtcome, out, hout, rfl⟩
    exact ⟨out, hout, houtcome⟩

/-- The registry tells of a block error just if the type of the component cannot make its block. -/
theorem Registry.create_eq_block_iff {registry : Registry} {node : Node} {id : String}
    {e : BlockError} :
    registry.create node = .error (.block id e) ↔
      node.id = id ∧ ∃ type, registry.find? node.type = some type ∧ type.create node = .error e := by
  unfold Registry.create
  cases hfind : registry.find? node.type with
  | none => simp
  | some type =>
    cases hcreate : type.create node with
    | ok block => simp [hcreate]
    | error found => simp [hcreate]

namespace Engine

variable {engine : Engine} {branches : Branches} {nodes : List Node} {env : Environment}

namespace Attempt

/-- The block of the component could not be made. -/
def Uncreated (engine : Engine) (attempt : Attempt) (e : BlockError) : Prop :=
  ∃ type, engine.registry.find? attempt.node.type = some type ∧ type.create attempt.node = .error e

/-- The block of the component was started and failed. -/
def Fails (engine : Engine) (branches : Branches) (attempt : Attempt) (failure : Failure) : Prop :=
  ∃ block world, engine.registry.create attempt.node = .ok block ∧
    block (engine.context branches attempt.node attempt.env)
      (attempt.before.world.note (.started attempt.node.id attempt.node.type)) =
        (.error failure, world)

variable {attempt : Attempt} {failure : Failure}

/-- A block that fails leaves its record, and its run goes on if the failure is contained. -/
theorem Sound.of_fails (h : attempt.Sound engine branches)
    (hfails : attempt.Fails engine branches failure) :
    attempt.after.scope.records =
        attempt.before.scope.records ++ [failure.record attempt.node attempt.env] ∧
      (failure.Contained attempt.node → attempt.outcome = .ok none) ∧
      (¬ failure.Contained attempt.node →
        attempt.outcome = .error (.block attempt.node.id failure.error)) := by
  obtain ⟨node, env, before, ending, after⟩ := attempt
  obtain ⟨hexecutes, hindexed, hnew⟩ := h
  obtain ⟨block, world, hcreate, hblock⟩ := hfails
  dsimp only at hexecutes hindexed hnew hcreate hblock
  have hstored : ((before.scope.start node.id).insert (failure.record node env)).records =
      before.scope.records ++ [failure.record node env] :=
    (hindexed.start node.id).records_insert hnew
  by_cases hhandled : failure.outcome?.any node.handles = true
  · obtain ⟨rfl, rfl⟩ := hexecutes.unique (.contained hcreate hblock hhandled)
    exact ⟨hstored, fun _ => rfl, fun h => absurd (Failure.contained_iff.mpr hhandled) h⟩
  · obtain ⟨rfl, rfl⟩ := hexecutes.unique (.failed hcreate hblock (Bool.eq_false_iff.mpr hhandled))
    exact ⟨hstored, fun h => absurd (Failure.contained_iff.mp h) hhandled, fun _ => rfl⟩

/-- A block that could not be made leaves the frame as it was. -/
theorem Sound.of_uncreated {e : BlockError} (h : attempt.Sound engine branches)
    (huncreated : attempt.Uncreated engine e) :
    attempt.after = attempt.before ∧ attempt.outcome = .error (.block attempt.node.id e) := by
  have hcreate := Registry.create_eq_block_iff.mpr ⟨rfl, huncreated⟩
  obtain ⟨hending, hafter⟩ := h.executes.unique (.uncreated hcreate)
  refine ⟨hafter, ?_⟩
  rw [outcome, hending]
  rfl

/-- An attempt ends with a block error just if its block could not be made, or failed uncontained. -/
theorem Sound.outcome_eq_block_iff (h : attempt.Sound engine branches) {id : String}
    {e : BlockError} :
    attempt.outcome = .error (.block id e) ↔ attempt.node.id = id ∧
      (attempt.Uncreated engine e ∨ ∃ failure, attempt.Fails engine branches failure ∧
        failure.error = e ∧ ¬ failure.Contained attempt.node) := by
  constructor
  · obtain ⟨node, env, before, ending, after⟩ := attempt
    obtain ⟨hexecutes, _, _⟩ := h
    intro houtcome
    dsimp only at hexecutes
    cases hexecutes with
    | uncreated hcreate =>
      cases houtcome
      obtain ⟨hid, huncreated⟩ := Registry.create_eq_block_iff.mp hcreate
      exact ⟨hid, Or.inl huncreated⟩
    | succeeded _ _ => cases houtcome
    | contained _ _ _ => cases houtcome
    | failed hcreate hblock hhandled =>
      cases houtcome
      rw [← Bool.not_eq_true, ← Failure.contained_iff] at hhandled
      exact ⟨rfl, Or.inr ⟨_, ⟨_, _, hcreate, hblock⟩, rfl, hhandled⟩⟩
    | crashed _ _ => cases houtcome
    | tooDeep _ _ => cases houtcome
  · rintro ⟨rfl, huncreated | ⟨failure, hfails, rfl, hcontained⟩⟩
    · exact (h.of_uncreated huncreated).2
    · exact (h.of_fails hfails).2.2 hcontained

end Attempt

/-- With the standard block types alone, every block can be made and fails with the conventional
outcome. -/
theorem Attempt.of_standard (branches : Branches) {attempt : Attempt}
    (hstandard : engine.registry = .standard) :
    (∀ e, ¬ attempt.Uncreated engine e) ∧
      ∀ failure, attempt.Fails engine branches failure → failure.outcome? = some errorLabel := by
  constructor
  · rintro e ⟨type, hfind, herror⟩
    rw [hstandard] at hfind
    obtain ⟨block, hblock⟩ := (Registry.tame_of_find?_standard hfind).create attempt.node
    cases hblock.symm.trans herror
  · rintro failure ⟨block, world, hcreate, hfails⟩
    obtain ⟨type, hfind, hmade⟩ := Registry.create_eq_ok_iff.mp hcreate
    rw [hstandard] at hfind
    exact (Registry.tame_of_find?_standard hfind).tagged _ _ hmade _ _ _ _ hfails

/-- A run of components in a fresh scope attempts executions in an order, and starts the blocks of
those that can be made. Every failure before the last attempt is contained by an edge of its
component and recorded with its outcome, without a return value, and with its result or else the
wording of its error. The run ends with a block error just if that of the last attempt could not
be made, which leaves no record, or failed uncontained, which leaves the last record. With the
standard block types alone, the component of such an error has no edge for the conventional
outcome of a failure. -/
theorem runNodes_contains_failures (engine : Engine) (branches : Branches) (nodes : List Node)
    (env : Environment) (world : World) :
    let run := engine.runNodes branches nodes env { world }
    ∃ attempts,
      Pulls engine branches nodes env (terminals nodes) { world } attempts run.1 run.2 ∧
      run.2.scope.started = (attempts.filter (Attempt.starts engine)).map (·.node.id) ∧
      (∀ attempt ∈ attempts.dropLast, ∀ failure, attempt.Fails engine branches failure →
        (∃ out ∈ attempt.node.outs, failure.outcome? = some out.label) ∧
        ∃ record ∈ run.2.scope.records, record.id = attempt.node.id ∧
          record.outcome? = failure.outcome? ∧ record.returned? = none ∧
          record.result = failure.result?.getD (.text failure.error.message)) ∧
      (∀ id e, run.1 = .error (.block id e) ↔
        ∃ last, attempts.getLast? = some last ∧ last.node.id = id ∧
          (last.Uncreated engine e ∨ ∃ failure, last.Fails engine branches failure ∧
            failure.error = e ∧ ∀ out ∈ last.node.outs, failure.outcome? ≠ some out.label)) ∧
      (∀ last, attempts.getLast? = some last →
        (∀ e, last.Uncreated engine e →
          ∀ record ∈ run.2.scope.records, record.id ≠ last.node.id) ∧
        ∀ failure, last.Fails engine branches failure →
          run.2.scope.records.getLast? = some (failure.record last.node last.env)) ∧
      (engine.registry = .standard → ∀ id e, run.1 = .error (.block id e) →
        ∃ node ∈ nodes, node.id = id ∧ ∀ out ∈ node.outs, out.label ≠ errorLabel) := by
  intro run
  obtain ⟨attempts, hpulls⟩ := engine.pulls_runNodes branches nodes env { world }
  have hsound := hpulls.sound .empty
  have hlinked := hpulls.linked
  have hconcludes := hpulls.concludes .empty fun _ => nofun
  have hblock : ∀ id e, run.1 = .error (.block id e) ↔
      ∃ last, attempts.getLast? = some last ∧ last.node.id = id ∧
        (last.Uncreated engine e ∨ ∃ failure, last.Fails engine branches failure ∧
          failure.error = e ∧ ∀ out ∈ last.node.outs, failure.outcome? ≠ some out.label) := by
    intro id e
    refine hconcludes.eq_block_iff.trans (exists_congr fun last => and_congr_right fun hlast => ?_)
    rw [(hsound last (List.mem_of_getLast? hlast)).outcome_eq_block_iff]
    simp [Failure.Contained]
  refine ⟨attempts, hpulls, by simpa using hlinked.started_eq hsound, ?_, hblock, ?_, ?_⟩
  · intro attempt hattempt failure hfails
    have hpassed := hconcludes.of_mem_dropLast attempt hattempt
    have hmem := List.mem_of_mem_dropLast hattempt
    obtain ⟨hrecords, _, huncontained⟩ := (hsound attempt hmem).of_fails hfails
    have hcontained : failure.Contained attempt.node := by
      by_contra hnot
      rw [huncontained hnot] at hpassed
      cases hpassed
    refine ⟨hcontained, failure.record attempt.node attempt.env, ?_, rfl, rfl, rfl, rfl⟩
    apply ((hlinked.records_prefix hsound).2 attempt hmem).subset
    rw [hrecords]
    exact List.mem_append_right _ List.mem_cons_self
  · intro last hlast
    have hlastSound := hsound last (List.mem_of_getLast? hlast)
    have hrecords := Frame.records_eq_of_still (hlinked.still_eq_getLast hlast)
    constructor
    · intro e huncreated record hrecord hid
      rw [hrecords, (hlastSound.of_uncreated huncreated).1] at hrecord
      exact hlastSound.indexed.get?_eq_none_iff.mp hlastSound.unrecorded
        (List.mem_map.mpr ⟨record, hrecord, hid⟩)
    · intro failure hfails
      rw [hrecords, (hlastSound.of_fails hfails).1, List.getLast?_concat]
  · intro hstandard id e herror
    obtain ⟨last, hlast, hid, hends⟩ := (hblock id e).mp herror
    have hmem := List.mem_of_getLast? hlast
    have hnode := hpulls.mem_nodes (fun _ => mem_of_mem_terminals) last hmem
    obtain ⟨hcreated, htagged⟩ := Attempt.of_standard branches hstandard
    obtain huncreated | ⟨failure, hfails, _, hunhandled⟩ := hends
    · exact absurd huncreated (hcreated e)
    · refine ⟨last.node, hnode, hid, fun out hout hlabel => hunhandled out hout ?_⟩
      rw [htagged failure hfails, hlabel]

end Engine

end Workflow
