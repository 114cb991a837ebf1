import Workflow.Proofs.Run.Runner

namespace Workflow

/-- A call that a runner takes from outside. Most of them look components up and run them in a fresh
scope; a pool runs its branch as a nested run. -/
inductive Call where
  | workflow (root : String) (env : Environment)
  | key (key : String) (env : Environment)
  | branch (source label : String) (env : Environment)
  | nodes (nodes : List Node) (env : Environment)
  | pool (source label : String) (envs : List Environment)
  /-- Resolves a component among others, in a scope that lives on. -/
  | node (node : Node) (nodes : List Node) (env : Environment) (scope : Scope)

/-- A call that looks up components and runs them in a fresh scope. -/
def Call.Looks : Call → Prop
  | .pool _ _ _ => False
  | .node _ _ _ _ => False
  | _ => True

/-- A call whose components are those of the tree. -/
def Call.OfTree : Call → Prop
  | .nodes _ _ => False
  | .node _ _ _ _ => False
  | _ => True

/-- How many branches deep the components of a call run. -/
def Call.level : Call → Nat
  | .branch _ _ _ => 1
  | .pool _ _ _ => 1
  | _ => 0

/-- What a call that ends well yields. -/
inductive Call.Result where
  | report (report : Report)
  | values (values : List Json)
  | resolution (resolution : Resolution)

/-- How a call ends, and the scope that lives on after it, if there is one. -/
structure Reply where
  ending : Ending FlowError Call.Result
  scope? : Option Scope := none

/-- The reply to a call that leaves no scope. -/
def Reply.ofRun {α : Type} (result : α → Call.Result) (run : Ending FlowError α × Session) :
    Reply × Session :=
  ({ ending := run.1.map result }, run.2)

namespace Runner

/-- Carries out a call. -/
def perform (runner : Runner) : Call → Session → Reply × Session
  | .workflow root env, session => Reply.ofRun .report (runner.runWorkflow root env session)
  | .key key env, session => Reply.ofRun .report (runner.runKey key env session)
  | .branch source label env, session =>
    Reply.ofRun .report (runner.runBranch source label env session)
  | .nodes nodes env, session => Reply.ofRun .report (runner.run nodes env session)
  | .pool source label envs, session =>
    Reply.ofRun .values (runner.runPool source label envs session)
  | .node node nodes env scope, session =>
    let (ending, scope, session) := runner.runNode node nodes env (scope, session)
    ({ ending := ending.map .resolution, scope? := some scope }, session)

/-- The components that a call runs in a fresh scope, with the environment of that run, if it looks
components up and finds them. -/
def looked? (runner : Runner) : Call → Option (List Node × Environment)
  | .workflow root env => (runner.tree.get? root).map fun _ => (runner.tree.descendants root, env)
  | .key key env => (runner.tree.findWorkflow? key).bind fun workflow =>
    (runner.tree.get? workflow.id).map fun _ => (runner.tree.descendants workflow.id, env)
  | .branch source label env => (runner.tree.branch source label).toOption.map (·, env)
  | .nodes nodes env => some (nodes, env)
  | .pool _ _ _ => none
  | .node _ _ _ _ => none

variable {runner : Runner}

/-- A run of a workflow runs the components below its root, or fails if there is none. -/
theorem runWorkflow_cases (runner : Runner) (root : String) (env : Environment) :
    (∃ found, runner.tree.get? root = some found ∧
      runner.runWorkflow root env = runner.run (runner.tree.descendants root) env) ∨
    runner.tree.get? root = none ∧
      runner.runWorkflow root env = Step.error (.graph (.componentNotFound root)) := by
  unfold runWorkflow
  cases runner.tree.get? root with
  | none => exact Or.inr ⟨rfl, rfl⟩
  | some found => exact Or.inl ⟨found, rfl, rfl⟩

variable {call : Call}

private theorem perform_cases (hlooks : call.Looks) (session : Session) :
    (∃ nodes env, runner.looked? call = some (nodes, env) ∧
      runner.perform call session = Reply.ofRun .report (runner.run nodes env session)) ∨
    ∃ e, runner.looked? call = none ∧
      runner.perform call session = ({ ending := .error (.graph e) }, session) := by
  cases call with
  | workflow root env =>
    simp only [perform, looked?]
    obtain ⟨found, hroot, hrun⟩ | ⟨hroot, hrun⟩ := runner.runWorkflow_cases root env
    · exact Or.inl ⟨_, _, by rw [hroot]; rfl, by rw [hrun]⟩
    · exact Or.inr ⟨_, by rw [hroot]; rfl, by rw [hrun]; rfl⟩
  | key key env =>
    simp only [perform, looked?]
    cases hfound : runner.tree.findWorkflow? key with
    | none => exact Or.inr ⟨_, rfl, by rw [runKey, hfound]; rfl⟩
    | some workflow =>
      have hkey : runner.runKey key env = runner.runWorkflow workflow.id env := by
        rw [runKey, hfound]
      rw [Option.bind_some, hkey]
      obtain ⟨found, hroot, hrun⟩ | ⟨hroot, hrun⟩ :=
        runner.runWorkflow_cases workflow.id env
      · exact Or.inl ⟨_, _, by rw [hroot]; rfl, by rw [hrun]⟩
      · exact Or.inr ⟨_, by rw [hroot]; rfl, by rw [hrun]; rfl⟩
  | branch source label env =>
    simp only [perform, looked?, runBranch]
    cases runner.tree.branch source label with
    | error e => exact Or.inr ⟨_, rfl, rfl⟩
    | ok nodes => exact Or.inl ⟨_, _, rfl, rfl⟩
  | nodes nodes env => exact Or.inl ⟨nodes, env, rfl, rfl⟩
  | pool source label envs => exact hlooks.elim
  | node node nodes env scope => exact hlooks.elim

/-- A call runs the components that it looks up. -/
theorem perform_of_looked {nodes : List Node} {env : Environment}
    (hlooked : runner.looked? call = some (nodes, env)) (session : Session) :
    runner.perform call session = Reply.ofRun .report (runner.run nodes env session) := by
  have hlooks : call.Looks := by cases call <;> trivial
  obtain ⟨_, _, hfound, hperform⟩ | ⟨_, hnone, _⟩ := perform_cases hlooks session
  · cases hfound.symm.trans hlooked
    exact hperform
  · cases hnone.symm.trans hlooked

/-- A call that does not find what it looks up fails and changes nothing. -/
theorem perform_of_unlooked (hlooks : call.Looks) (hlooked : runner.looked? call = none)
    (session : Session) :
    ∃ e, runner.perform call session = ({ ending := .error (.graph e) }, session) := by
  obtain ⟨_, _, hfound, _⟩ | ⟨e, _, hperform⟩ := perform_cases hlooks session
  · cases hfound.symm.trans hlooked
  · exact ⟨e, hperform⟩

end Runner

end Workflow
