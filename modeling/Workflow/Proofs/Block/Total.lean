import Workflow.Proofs.Block.Tagged

namespace Workflow

variable {σ ε φ α β : Type}

/-- The step comes to an end of its own from every state. -/
def Step.Total (step : Step σ ε α) : Prop := ∀ s, (step s).1.Completes

namespace Step.Total

theorem pure (value : α) : (Pure.pure value : Step σ ε α).Total := fun _ => trivial

theorem error (e : ε) : (Step.error e : Step σ ε α).Total := fun _ => trivial

theorem ofExcept (result : Except ε α) : (Step.ofExcept result : Step σ ε α).Total := by
  intro s
  cases result <;> trivial

theorem mapError {step : Step σ ε α} {f : ε → φ} (hstep : step.Total) :
    (step.mapError f).Total := by
  intro s
  have hcompletes := hstep s
  obtain ⟨⟨ending, t⟩, hrun⟩ : ∃ run, step s = run := ⟨_, rfl⟩
  rw [hrun] at hcompletes
  simp only [Step.mapError, hrun]
  cases ending <;> exact hcompletes

/-- A step ends if it does and what follows from its result does. -/
theorem bind {step : Step σ ε α} {next : α → Step σ ε β} (hstep : step.Total)
    (hnext : ∀ value, (next value).Total) : (step >>= next).Total := by
  intro s
  have hcompletes := hstep s
  obtain ⟨⟨ending, t⟩, hrun⟩ : ∃ run, step s = run := ⟨_, rfl⟩
  rw [hrun] at hcompletes
  obtain ⟨value, rfl⟩ | ⟨halt, rfl⟩ := ending.ok_or_halt
  · rw [bind_ok hrun]
    exact hnext value t
  · rw [bind_halt hrun]
    exact Halt.completes_ending hcompletes

/-- A step that ends still does so when its crashes are caught. -/
theorem catchCrash {step : Step σ ε α} {caught : String → ε} (hstep : step.Total) :
    (step.catchCrash caught).Total := by
  intro s
  have hcompletes := hstep s
  obtain ⟨⟨ending, t⟩, hrun⟩ : ∃ run, step s = run := ⟨_, rfl⟩
  rw [hrun] at hcompletes
  simp only [Step.catchCrash, hrun]
  cases ending <;> trivial

end Step.Total

namespace Context

variable (ctx : Context)

theorem fieldOr_total (key : String) (asJson : Bool) (default : String) :
    (ctx.fieldOr key asJson default).Total := fun world => Step.Total.ofExcept _ world

theorem field_total (key : String) : (ctx.field key).Total :=
  .bind (ctx.fieldOr_total key false "") fun _ => .pure _

theorem fieldJson_total (key : String) : (ctx.fieldJson key).Total :=
  ctx.fieldOr_total key true "{}"

theorem requireField_total (key : String) : (ctx.requireField key).Total := by
  refine .bind (ctx.field_total key) fun text => ?_
  split
  · exact .error _
  · exact .pure _

/-- Storing a value comes to an end. -/
theorem setState_total (expression : String) (value : Json) :
    (ctx.setState expression value).Total := by
  intro world
  unfold setState
  split <;> trivial

end Context

/-- The for-each block ends if the runs that it repeats do, whatever their environments. -/
theorem ForEach.block_total {ctx : Context}
    (hpool : ∀ envs, (ctx.branches.pool ctx.node.id loopLabel envs).Total) : (block ctx).Total := by
  have hrunPool : ∀ envs, (ctx.runPool loopLabel envs).Total := fun envs => .mapError (hpool envs)
  refine .bind (.mapError (.bind (ctx.fieldJson_total "items") fun items => ?_)) fun _ => .pure _
  split
  · exact .bind (hrunPool _) fun _ => .pure _
  · exact .bind (hrunPool _) fun _ => .pure _
  · exact .error _

theorem LogMessage.block_total (ctx : Context) : (block ctx).Total :=
  .bind (.mapError (ctx.field_total _)) fun _ => .bind (.mapError (ctx.field_total _)) fun _ =>
    .pure _

/-- The parse-json block comes to an end of its own. -/
theorem ParseJson.block_total (ctx : Context) : (block ctx).Total := by
  refine .bind (.mapError (.bind (ctx.field_total _) fun text => ?_)) fun _ => .pure _
  split
  · exact .pure _
  · exact .error _

theorem ReturnValue.readValue_total (ctx : Context) : (readValue ctx).Total := by
  intro world
  unfold readValue
  split
  · exact Step.Total.bind (ctx.field_total _) (fun _ => .pure _) _
  · exact ctx.fieldOr_total _ _ _ world

theorem ReturnValue.block_total (ctx : Context) : (block ctx).Total :=
  .bind (.mapError (readValue_total ctx)) fun _ => .pure _

theorem SetState.readValue_total (ctx : Context) : (readValue ctx).Total := by
  refine .bind (ctx.field_total _) fun valueType => ?_
  split
  · exact ctx.fieldJson_total _
  · exact .bind (ctx.field_total _) fun _ => .pure _

/-- The set-state block comes to an end of its own. -/
theorem SetState.block_total (ctx : Context) : (block ctx).Total :=
  .bind (.mapError (.bind (ctx.requireField_total _) fun _ =>
    .bind (readValue_total ctx) fun value =>
      .bind (ctx.setState_total _ value) fun _ => .pure _)) fun _ => .pure _

/-- A standard block ends, provided that what it repeats does if it is a for-each block. -/
theorem Registry.total_of_create_standard {node : Node} {block : Block}
    (hcreate : Registry.standard.create node = .ok block) {ctx : Context}
    (hpool : node.type = ForEach.type →
      ∀ envs, (ctx.branches.pool ctx.node.id ForEach.loopLabel envs).Total) :
    (block ctx).Total := by
  obtain ⟨htype, rfl⟩ | ⟨-, rfl⟩ | ⟨-, rfl⟩ | ⟨-, rfl⟩ | ⟨-, rfl⟩ :=
    Registry.create_standard_cases hcreate
  · exact ForEach.block_total (hpool htype)
  · exact LogMessage.block_total ctx
  · exact ParseJson.block_total ctx
  · exact ReturnValue.block_total ctx
  · exact SetState.block_total ctx

end Workflow
