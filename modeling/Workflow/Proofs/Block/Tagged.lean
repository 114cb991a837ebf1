import Workflow.Block.Standard
import Workflow.Proofs.Step

namespace Workflow

variable {σ α β : Type}

/-- Every failure of the step carries the conventional outcome. -/
def Step.Tagged (step : Step σ Failure α) : Prop :=
  ∀ s failure t, step s = (.error failure, t) → failure.outcome? = some errorLabel

namespace Step.Tagged

theorem pure (value : α) : (Pure.pure value : Step σ Failure α).Tagged := by
  intro s failure t hstep
  cases hstep

/-- A step whose errors are made failures carries the conventional outcome. -/
theorem mapError (step : Step σ BlockError α) : (step.mapError Failure.ofError).Tagged := by
  intro s failure t hstep
  obtain ⟨error, _, rfl⟩ := Step.mapError_error hstep
  rfl

/-- Two steps whose failures carry the conventional outcome make another one. -/
theorem bind {step : Step σ Failure α} {next : α → Step σ Failure β} (hstep : step.Tagged)
    (hnext : ∀ value, (next value).Tagged) : (step >>= next).Tagged := by
  intro s failure t hchain
  obtain ⟨value, between, _, hlast⟩ | ⟨halt, hfirst, hending⟩ := Step.bind_cases hchain
  · exact hnext value between failure t hlast
  · obtain rfl := Halt.ending_eq_error.mp hending.symm
    exact hstep s failure t hfirst

end Step.Tagged

/-- A block type whose blocks can always be made and only fail with the conventional outcome. -/
structure BlockType.Tame (type : BlockType) : Prop where
  create : ∀ node, ∃ block, type.create node = .ok block
  tagged : ∀ node block, type.create node = .ok block → ∀ ctx, (block ctx).Tagged

/-- A type is tame if it always makes the same block, and the failures of that one carry the
conventional outcome. -/
theorem BlockType.Tame.of_block {block : Block} {description : Description}
    (htagged : ∀ ctx, (block ctx).Tagged) :
    BlockType.Tame { create := fun _ => .ok block, description } where
  create _ := ⟨block, rfl⟩
  tagged _ _ hcreate := Except.ok.inj hcreate ▸ htagged

/-- The for-each block can always be made and fails with the conventional outcome. -/
theorem ForEach.tame : ForEach.blockType.Tame :=
  .of_block fun _ => .bind (.mapError _) fun _ => .pure _

theorem LogMessage.tame : LogMessage.blockType.Tame :=
  .of_block fun _ => .bind (.mapError _) fun _ => .bind (.mapError _) fun _ => .pure _

theorem SetState.tame : SetState.blockType.Tame :=
  .of_block fun _ => .bind (.mapError _) fun _ => .pure _

theorem ReturnValue.tame : ReturnValue.blockType.Tame :=
  .of_block fun _ => .bind (.mapError _) fun _ => .pure _

theorem ParseJson.tame : ParseJson.blockType.Tame :=
  .of_block fun _ => .bind (.mapError _) fun _ => .pure _

/-- The standard block types, in the order of their names. -/
theorem Registry.types_standard : Registry.standard.types =
    [(ForEach.type, ForEach.blockType), (LogMessage.type, LogMessage.blockType),
      (ParseJson.type, ParseJson.blockType), (ReturnValue.type, ReturnValue.blockType),
      (SetState.type, SetState.blockType)] := rfl

/-- A standard block type is one of five, each under its own name. -/
theorem Registry.find?_standard_cases {name : String} {type : BlockType}
    (hfind : Registry.standard.find? name = some type) :
    (name = ForEach.type ∧ type = ForEach.blockType) ∨
      (name = LogMessage.type ∧ type = LogMessage.blockType) ∨
      (name = ParseJson.type ∧ type = ParseJson.blockType) ∨
      (name = ReturnValue.type ∧ type = ReturnValue.blockType) ∨
      (name = SetState.type ∧ type = SetState.blockType) := by
  have hmem := Bindings.mem_of_find?_eq_some hfind
  rw [Registry.types_standard] at hmem
  simpa only [List.mem_cons, Prod.mk.injEq, List.not_mem_nil, or_false] using hmem

/-- All standard block types are tame. -/
theorem Registry.tame_of_find?_standard {name : String} {type : BlockType}
    (hfind : Registry.standard.find? name = some type) : type.Tame := by
  obtain ⟨-, rfl⟩ | ⟨-, rfl⟩ | ⟨-, rfl⟩ | ⟨-, rfl⟩ | ⟨-, rfl⟩ :=
    Registry.find?_standard_cases hfind
  · exact ForEach.tame
  · exact LogMessage.tame
  · exact ParseJson.tame
  · exact ReturnValue.tame
  · exact SetState.tame

/-- The block of a component is made as its type says. -/
theorem Registry.create_eq_ok_iff {registry : Registry} {node : Node} {block : Block} :
    registry.create node = .ok block ↔
      ∃ type, registry.find? node.type = some type ∧ type.create node = .ok block := by
  unfold Registry.create
  cases registry.find? node.type with
  | none => simp
  | some type => cases hcreate : type.create node <;> simp [hcreate]

/-- The standard block that is made for a component. -/
theorem Registry.create_standard_cases {node : Node} {block : Block}
    (hcreate : Registry.standard.create node = .ok block) :
    (node.type = ForEach.type ∧ block = ForEach.block) ∨
      (node.type = LogMessage.type ∧ block = LogMessage.block) ∨
      (node.type = ParseJson.type ∧ block = ParseJson.block) ∨
      (node.type = ReturnValue.type ∧ block = ReturnValue.block) ∨
      (node.type = SetState.type ∧ block = SetState.block) := by
  obtain ⟨type, hfind, hmade⟩ := Registry.create_eq_ok_iff.mp hcreate
  refine (Registry.find?_standard_cases hfind).imp ?_ (.imp ?_ (.imp ?_ (.imp ?_ ?_)))
  all_goals
    rintro ⟨htype, rfl⟩
    exact ⟨htype, (Except.ok.inj hmade).symm⟩

/-- Where the for-each type is bound to its own block, no other block is made for it. -/
theorem Registry.eq_forEach_of_create {registry : Registry} {node : Node} {block : Block}
    (hforEach : ∀ type, registry.find? ForEach.type = some type → type = ForEach.blockType)
    (hcreate : registry.create node = .ok block) (htype : node.type = ForEach.type) :
    block = ForEach.block := by
  obtain ⟨type, hfind, hmade⟩ := Registry.create_eq_ok_iff.mp hcreate
  obtain rfl := hforEach type (htype ▸ hfind)
  exact (Except.ok.inj hmade).symm

/-- The registry has standard block types only, each under its own name. -/
def Registry.WithinStandard (registry : Registry) : Prop :=
  ∀ name type, registry.find? name = some type → Registry.standard.find? name = some type

theorem Registry.withinStandard_standard : Registry.standard.WithinStandard := fun _ _ => id

/-- What a registry of standard types makes for a component is what the standard registry makes. -/
theorem Registry.WithinStandard.create_standard {registry : Registry} {node : Node} {block : Block}
    (hwithin : registry.WithinStandard) (hcreate : registry.create node = .ok block) :
    Registry.standard.create node = .ok block := by
  obtain ⟨type, hfind, hmade⟩ := Registry.create_eq_ok_iff.mp hcreate
  exact Registry.create_eq_ok_iff.mpr ⟨type, hwithin _ _ hfind, hmade⟩

theorem Registry.WithinStandard.find?_forEach {registry : Registry}
    (hwithin : registry.WithinStandard) (type : BlockType)
    (hfind : registry.find? ForEach.type = some type) : type = ForEach.blockType := by
  cases hwithin _ _ hfind
  rfl

end Workflow
