import Workflow.Proofs.Step
import Workflow.Run.Branch

namespace Workflow

/-- The world that runs in the environments leave, one after the other. -/
def worldAfter (run : Environment → Step World FlowError (Option Json)) (envs : List Environment)
    (world : World) : World :=
  envs.foldl (fun world env => (run env world).2) world

section Iterate

variable {run : Environment → Step World FlowError (Option Json)} {env : Environment}
  {envs : List Environment} {world : World}

@[simp] theorem worldAfter_cons :
    worldAfter run (env :: envs) world = worldAfter run envs (run env world).2 := rfl

/-- If every iteration ends well in the world that those before it leave, the values are listed in
their order. -/
theorem iterate_ok {values? : Nat → Option Json}
    (h : ∀ i env, envs[i]? = some env →
      (run env (worldAfter run (envs.take i) world)).1 = .ok (values? i)) :
    iterate run envs world =
      (.ok ((List.range envs.length).map fun i => (values? i).getD .null),
        worldAfter run envs world) := by
  induction envs generalizing world values? with
  | nil => rfl
  | cons env rest ih =>
    have hfirst : (run env).catchCrash .join world = (.ok (values? 0), (run env world).2) :=
      Step.catchCrash_of_ok (h 0 env rfl)
    have hrest : iterate run rest (run env world).2 = _ := ih fun i env henv => h (i + 1) env henv
    rw [iterate, Step.bind_ok hfirst, Step.bind_ok hrest, worldAfter_cons, List.length_cons,
      List.range_succ_eq_map, List.map_cons, List.map_map]
    rfl

/-- The first iteration that fails ends the pool, with its error and in the world that it leaves. -/
theorem iterate_error {i : Nat} {e : FlowError} {after : World} (henv : envs[i]? = some env)
    (hbefore : ∀ j < i, ∀ env, envs[j]? = some env →
      ∃ value?, (run env (worldAfter run (envs.take j) world)).1 = .ok value?)
    (hfail : (run env).catchCrash .join (worldAfter run (envs.take i) world) = (.error e, after)) :
    iterate run envs world = (.error e, after) := by
  induction envs generalizing world i with
  | nil => cases henv
  | cons first rest ih =>
    cases i with
    | zero =>
      obtain rfl := Option.some.inj henv
      exact Step.bind_error hfail
    | succ i =>
      obtain ⟨value?, hvalue⟩ := hbefore 0 (Nat.succ_pos i) first rfl
      have hfirst : (run first).catchCrash .join world = (.ok value?, (run first world).2) :=
        Step.catchCrash_of_ok hvalue
      have hrest := ih henv (fun j hj env henv => hbefore (j + 1) (Nat.succ_lt_succ hj) env henv)
        hfail
      rw [iterate, Step.bind_ok hfirst]
      exact Step.bind_error hrest

end Iterate

namespace Tree

variable {tree : Tree} {node : Node} {label : String}

/-- The branch of a component consists of the components that its edges lead to. -/
theorem branch_eq_ok (hnode : tree.get? node.id = some node) {nodes : List Node}
    (htargets : (node.targets label).map tree.get? = nodes.map some) :
    tree.branch node.id label = .ok nodes := by
  simp only [branch, hnode]
  generalize node.targets label = targets at htargets
  induction targets generalizing nodes with
  | nil =>
    obtain rfl := List.map_eq_nil_iff.mp htargets.symm
    rfl
  | cons target rest ih =>
    cases nodes with
    | nil => cases htargets
    | cons found others =>
      obtain ⟨hfound, hothers⟩ := List.cons.inj htargets
      rw [List.mapM_cons, hfound, ih hothers]
      rfl

/-- An edge that leads nowhere leaves a component without a branch. -/
theorem branch_eq_error (hnode : tree.get? node.id = some node) {target : String}
    (htarget : target ∈ node.targets label) (hmissing : tree.get? target = none) :
    ∃ missing, tree.branch node.id label = .error (.danglingEdge node.id missing) := by
  simp only [branch, hnode]
  generalize node.targets label = targets at htarget
  induction targets with
  | nil => cases htarget
  | cons first rest ih =>
    rw [List.mapM_cons]
    cases hfirst : tree.get? first with
    | none => exact ⟨first, rfl⟩
    | some found =>
      obtain rfl | hrest := List.mem_cons.mp htarget
      · rw [hmissing] at hfirst
        cases hfirst
      · obtain ⟨missing, herror⟩ := ih hrest
        rw [herror]
        exact ⟨missing, rfl⟩

end Tree

/-- A pool repeats its branch, also where there is none. -/
theorem Engine.runPool_eq_iterate (engine : Engine) (branches : Branches) (source label : String)
    (envs : List Environment) :
    engine.runPool branches source label envs =
      iterate (engine.runBranch branches source label) envs := by
  cases envs with
  | nil => rfl
  | cons env rest =>
    funext world
    unfold runPool
    cases hbranch : engine.tree.branch source label with
    | error e =>
      have hfirst : (engine.runBranch branches source label env).catchCrash .join world =
          (.error (.graph e), world) := by
        simp only [Step.catchCrash, runBranch, hbranch, Step.error]
      rw [iterate, Step.bind_error hfirst]
      rfl
    | ok nodes =>
      have hrun : engine.runBranch branches source label = engine.runFresh branches nodes := by
        funext env
        rw [runBranch, hbranch]
      rw [hrun]

end Workflow
