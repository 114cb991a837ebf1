import Workflow.Proofs.Step
import Workflow.Run.Runner

namespace Workflow.Runner

/-- A top-level run ends as its components do, whatever becomes of its log entry. -/
theorem run_ending (runner : Runner) (nodes : List Node) (env : Environment) (session : Session) :
    (runner.run nodes env session).1 =
      (runner.runNodes runner.nested nodes env { world := session.world }).1.map fun returned? =>
        ⟨returned?,
          (runner.runNodes runner.nested nodes env { world := session.world }).2.scope⟩ := by
  unfold run
  obtain ⟨⟨ending, frame⟩, hrun⟩ : ∃ run,
      runner.runNodes runner.nested nodes env { world := session.world } = run := ⟨_, rfl⟩
  rw [hrun]
  cases ending <;> rfl

/-- Writing the log entry changes nothing in the world that the components have left. -/
theorem run_world (runner : Runner) (nodes : List Node) (env : Environment) (session : Session) :
    (runner.run nodes env session).2.world =
      (runner.runNodes runner.nested nodes env { world := session.world }).2.world := by
  have hlog : ∀ (session : Session) (entry : Entry),
      (runner.log session entry).world = session.world := by
    intro session entry
    unfold log
    split <;> rfl
  unfold run
  obtain ⟨⟨ending, frame⟩, hrun⟩ : ∃ run,
      runner.runNodes runner.nested nodes env { world := session.world } = run := ⟨_, rfl⟩
  rw [hrun]
  cases ending with
  | ok _ => exact hlog _ _
  | error _ => exact hlog _ _
  | crashed => rfl
  | tooDeep => rfl

end Workflow.Runner
