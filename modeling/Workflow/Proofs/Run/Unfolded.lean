import Workflow.Proofs.Block.ForEach
import Workflow.Proofs.Run.Attempts
import Workflow.Proofs.Run.Call

namespace Workflow

/-- One run of the block of a component: the world before it, in which its start is noted, how it
ended, and the world after it. -/
structure BlockRun where
  node : Node
  env : Environment
  before : World
  ending : Ending Failure Output
  after : World

/-- Something that happens in the course of a call. -/
inductive Happening where
  /-- A run of components begins, so many branches deep. -/
  | began (level : Nat) (nodes : List Node)
  | ran (run : BlockRun)

/-- The components that a for-each block repeats, with the environments for it. -/
def BlockRun.repeats? (tree : Tree) (run : BlockRun) : Option (List Node × List Environment) :=
  if run.node.type = ForEach.type then do
    let items ← (Field.evaluate tree run.before.state run.env (Instance.pathOf run.node.id) "items"
      true "\x7b\x7d").toOption
    let envs ← ForEach.envs? run.env items
    let nodes ← (tree.branch run.node.id ForEach.loopLabel).toOption
    return (nodes, envs)
  else none

/-- A block run repeats components just if it is one of a for-each block that reads elements and has
a branch. -/
theorem BlockRun.repeats?_eq_some_iff {tree : Tree} {run : BlockRun} {nodes : List Node}
    {envs : List Environment} :
    run.repeats? tree = some (nodes, envs) ↔ run.node.type = ForEach.type ∧
      (∃ items, Field.evaluate tree run.before.state run.env (Instance.pathOf run.node.id) "items"
        true "\x7b\x7d" = .ok items ∧ ForEach.envs? run.env items = some envs) ∧
      tree.branch run.node.id ForEach.loopLabel = .ok nodes := by
  unfold repeats?
  split
  · next htype =>
    simp only [Option.bind_eq_bind, Option.bind_eq_some_iff, Step.toOption_eq_some_iff,
      Option.pure_def, Option.some.injEq, Prod.mk.injEq, htype, true_and]
    constructor
    · rintro ⟨items, hitems, found, henvs, listed, hbranch, rfl, rfl⟩
      exact ⟨⟨items, hitems, henvs⟩, hbranch⟩
    · rintro ⟨⟨items, hitems, henvs⟩, hbranch⟩
      exact ⟨items, hitems, envs, henvs, nodes, hbranch, rfl, rfl⟩
  · next htype => simp [htype]

namespace Engine

/-- The run of the block in an attempt, if the block could be made. -/
def blockRun? (engine : Engine) (branches : Branches) (attempt : Attempt) : Option BlockRun :=
  match engine.registry.create attempt.node with
  | .error _ => none
  | .ok block =>
    let before := attempt.before.world.note (.started attempt.node.id attempt.node.type)
    let (ending, after) := block (engine.context branches attempt.node attempt.env) before
    some { node := attempt.node, env := attempt.env, before, ending, after }

/-- A block run is one of the block that is made for its component. -/
theorem blockRun?_eq_some_iff {engine : Engine} {branches : Branches} {attempt : Attempt}
    {run : BlockRun} :
    engine.blockRun? branches attempt = some run ↔
      ∃ block, engine.registry.create attempt.node = .ok block ∧ run.node = attempt.node ∧
        run.env = attempt.env ∧
        run.before = attempt.before.world.note (.started attempt.node.id attempt.node.type) ∧
        block (engine.context branches attempt.node attempt.env) run.before =
          (run.ending, run.after) := by
  unfold blockRun?
  cases hcreate : engine.registry.create attempt.node with
  | error e => simp
  | ok block =>
    constructor
    · rintro ⟨⟩
      exact ⟨block, rfl, rfl, rfl, rfl, rfl⟩
    · obtain ⟨node, env, before, ending, after⟩ := run
      rintro ⟨_, ⟨⟩, rfl, rfl, rfl, hblock⟩
      dsimp only at hblock
      simp only [hblock]

mutual

/-- Running components in a fresh scope, and all that happens while they run. -/
inductive Unfolds (engine : Engine) : (depth level : Nat) → List Node → Environment → World →
    List Happening → Ending FlowError (Option Json) → World → Prop where
  | scope {depth level : Nat} {nodes : List Node} {env : Environment} {world : World}
      {attempts : List Attempt} {happenings : List Happening}
      {ending : Ending FlowError (Option Json)} {after : Frame}
      (hrun : engine.runNodes (engine.branches depth) nodes env { world } = (ending, after))
      (hpulls : Pulls engine (engine.branches depth) nodes env (terminals nodes) { world } attempts
        ending after)
      (hcomprise : Comprise engine depth level
        (attempts.filterMap (engine.blockRun? (engine.branches depth))) happenings) :
      Unfolds engine depth level nodes env world (.began level nodes :: happenings) ending
        after.world

/-- Block runs in one scope, and all that happens while they run. -/
inductive Comprise (engine : Engine) : (depth level : Nat) → List BlockRun → List Happening →
    Prop where
  | done {depth level : Nat} : Comprise engine depth level [] []
  | single {depth level : Nat} {run : BlockRun} {rest : List BlockRun} {more : List Happening}
      (hsingle : run.repeats? engine.tree = none)
      (hrest : Comprise engine depth level rest more) :
      Comprise engine depth level (run :: rest) (.ran run :: more)
  | tooDeep {level : Nat} {run : BlockRun} {rest : List BlockRun} {more : List Happening}
      {nodes : List Node} {envs : List Environment}
      (hrepeats : run.repeats? engine.tree = some (nodes, envs))
      (hrest : Comprise engine 0 level rest more) :
      Comprise engine 0 level (run :: rest) (.ran run :: more)
  | repeated {depth level : Nat} {run : BlockRun} {rest : List BlockRun}
      {inner more : List Happening} {nodes : List Node} {envs : List Environment} {after : World}
      (hrepeats : run.repeats? engine.tree = some (nodes, envs))
      (hloop : Loops engine depth (level + 1) nodes envs run.before inner after)
      (hrest : Comprise engine (depth + 1) level rest more) :
      Comprise engine (depth + 1) level (run :: rest) (.ran run :: (inner ++ more))

/-- Running components once for each environment, until a run halts, and all that happens. -/
inductive Loops (engine : Engine) : (depth level : Nat) → List Node → List Environment → World →
    List Happening → World → Prop where
  | done {depth level : Nat} {nodes : List Node} {world : World} :
      Loops engine depth level nodes [] world [] world
  | next {depth level : Nat} {nodes : List Node} {env : Environment} {rest : List Environment}
      {world between after : World} {inner more : List Happening} {value? : Option Json}
      (hfirst : Unfolds engine depth level nodes env world inner (.ok value?) between)
      (hrest : Loops engine depth level nodes rest between more after) :
      Loops engine depth level nodes (env :: rest) world (inner ++ more) after
  | halted {depth level : Nat} {nodes : List Node} {env : Environment} {rest : List Environment}
      {world after : World} {inner : List Happening} {halt : Halt FlowError}
      (hfirst : Unfolds engine depth level nodes env world inner halt.ending after) :
      Loops engine depth level nodes (env :: rest) world inner after

end

variable {engine : Engine} {depth level : Nat} {nodes : List Node} {env : Environment}
  {world after : World} {happenings : List Happening}

/-- What unfolds in a run is how the run ends and which world it leaves. -/
theorem Unfolds.runFresh_eq {ending : Ending FlowError (Option Json)}
    (h : Unfolds engine depth level nodes env world happenings ending after) :
    engine.runFresh (engine.branches depth) nodes env world = (ending, after) := by
  cases h with
  | scope hrun _ _ =>
    simp only [runFresh, hrun]

/-- Behind an iteration that ends well the others run. -/
theorem iterate_cons_of_ok {run : Environment → Step World FlowError (Option Json)}
    {rest : List Environment} {between : World} {value? : Option Json}
    (hrun : run env world = (.ok value?, between)) :
    (iterate run (env :: rest) world).2 = (iterate run rest between).2 := by
  have hcaught : (run env).catchCrash .join world = (.ok value?, between) := by
    simp only [Step.catchCrash, hrun]
  rw [iterate, Step.bind_ok hcaught]
  exact Step.bind_snd (fun _ _ => rfl) between

/-- Behind an iteration that halts no other one runs. -/
theorem iterate_cons_of_halt {run : Environment → Step World FlowError (Option Json)}
    {rest : List Environment} {halt : Halt FlowError}
    (hrun : run env world = (halt.ending, after)) :
    (iterate run (env :: rest) world).2 = after := by
  have hcaught : ∃ caught : Halt FlowError,
      (run env).catchCrash .join world = (caught.ending, after) := by
    cases halt with
    | error e => exact ⟨.error e, by simp only [Step.catchCrash, hrun, Halt.ending]⟩
    | crashed report =>
      exact ⟨.error (.join report), by simp only [Step.catchCrash, hrun, Halt.ending]⟩
    | tooDeep => exact ⟨.tooDeep, by simp only [Step.catchCrash, hrun, Halt.ending]⟩
  obtain ⟨caught, hcaught⟩ := hcaught
  rw [iterate, Step.bind_halt hcaught]

/-- A pool repeats its branch in fresh scopes. -/
theorem runPool_of_branch (engine : Engine) (branches : Branches) {source label : String}
    (hbranch : engine.tree.branch source label = .ok nodes) (envs : List Environment) :
    engine.runPool branches source label envs = iterate (engine.runFresh branches nodes) envs := by
  have hrun : engine.runBranch branches source label = engine.runFresh branches nodes := by
    funext env
    rw [runBranch, hbranch]
  rw [runPool_eq_iterate, hrun]

/-- A pool without a branch changes nothing. -/
theorem runPool_of_missing (engine : Engine) (branches : Branches) {source label : String}
    {e : GraphError} (hbranch : engine.tree.branch source label = .error e)
    (envs : List Environment) (world : World) :
    (engine.runPool branches source label envs world).2 = world := by
  cases envs with
  | nil => rfl
  | cons env rest =>
    simp only [runPool, hbranch]
    rfl

/-- A loop leaves the world as repeating the components in a pool does. -/
theorem Loops.iterate_eq {envs : List Environment}
    (h : Loops engine depth level nodes envs world happenings after) :
    (iterate (engine.runFresh (engine.branches depth) nodes) envs world).2 = after := by
  induction envs generalizing world happenings with
  | nil =>
    cases h
    rfl
  | cons env rest ih =>
    cases h with
    | next hfirst hrest => rw [iterate_cons_of_ok hfirst.runFresh_eq, ih hrest]
    | halted hfirst => exact iterate_cons_of_halt hfirst.runFresh_eq

private theorem exists_loops_of (hunfolds : ∀ env world, ∃ happenings ending after,
    Unfolds engine depth level nodes env world happenings ending after) :
    ∀ envs world, ∃ happenings after,
      Loops engine depth level nodes envs world happenings after := by
  intro envs
  induction envs with
  | nil => exact fun world => ⟨_, _, .done⟩
  | cons env rest ih =>
    intro world
    obtain ⟨inner, ending, between, hfirst⟩ := hunfolds env world
    obtain ⟨value?, rfl⟩ | ⟨halt, rfl⟩ := ending.ok_or_halt
    · obtain ⟨more, after, hrest⟩ := ih between
      exact ⟨_, _, .next hfirst hrest⟩
    · exact ⟨_, _, .halted hfirst⟩

private theorem exists_comprise_of (hloops : ∀ below nodes envs world, depth = below + 1 →
    ∃ happenings after, Loops engine below (level + 1) nodes envs world happenings after)
    (runs : List BlockRun) : ∃ happenings, Comprise engine depth level runs happenings := by
  induction runs with
  | nil => exact ⟨_, .done⟩
  | cons run rest ih =>
    obtain ⟨more, hrest⟩ := ih
    cases hrepeats : run.repeats? engine.tree with
    | none => exact ⟨_, .single hrepeats hrest⟩
    | some repeated =>
      cases depth with
      | zero => exact ⟨_, .tooDeep hrepeats hrest⟩
      | succ below =>
        obtain ⟨inner, after, hloop⟩ := hloops below repeated.1 repeated.2 run.before rfl
        exact ⟨_, .repeated hrepeats hloop hrest⟩

/-- Every run unfolds. -/
theorem exists_unfolds (engine : Engine) (depth level : Nat) (nodes : List Node)
    (env : Environment) (world : World) : ∃ happenings ending after,
      Unfolds engine depth level nodes env world happenings ending after := by
  have hloops : ∀ below nodes envs world, depth = below + 1 →
      ∃ happenings after, Loops engine below (level + 1) nodes envs world happenings after := by
    rintro below nodes envs world rfl
    exact exists_loops_of (exists_unfolds engine below (level + 1) nodes) envs world
  obtain ⟨attempts, hpulls⟩ := engine.pulls_runNodes (engine.branches depth) nodes env { world }
  obtain ⟨happenings, hcomprise⟩ := exists_comprise_of hloops
    (attempts.filterMap (engine.blockRun? (engine.branches depth)))
  exact ⟨_, _, _, .scope rfl hpulls hcomprise⟩
termination_by depth

theorem exists_loops (engine : Engine) (depth level : Nat) (nodes : List Node)
    (envs : List Environment) (world : World) :
    ∃ happenings after, Loops engine depth level nodes envs world happenings after :=
  exists_loops_of (engine.exists_unfolds depth level nodes) envs world

/-- Whatever block runs there are, something happens in their course. -/
theorem exists_comprise (engine : Engine) (depth level : Nat) (runs : List BlockRun) :
    ∃ happenings, Comprise engine depth level runs happenings :=
  exists_comprise_of (fun below nodes envs world _ => engine.exists_loops below _ nodes envs world)
    runs

/-- Whatever was started in a run has had its block run. -/
theorem Pulls.exists_blockRun {branches : Branches} {attempts : List Attempt}
    {ending : Ending FlowError (Option Json)} {after : Frame}
    (h : Pulls engine branches nodes env (terminals nodes) { world } attempts ending after)
    {id : String} (hid : id ∈ after.scope.started) :
    ∃ run ∈ attempts.filterMap (engine.blockRun? branches), run.node ∈ nodes ∧ run.node.id = id := by
  rw [h.linked.started_eq (h.sound .empty), List.nil_append] at hid
  obtain ⟨attempt, hattempt, rfl⟩ := List.mem_map.mp hid
  obtain ⟨hmade, hstarts⟩ := List.mem_filter.mp hattempt
  unfold Attempt.starts at hstarts
  cases hcreate : engine.registry.create attempt.node with
  | error e => simp [hcreate] at hstarts
  | ok block =>
    obtain ⟨run, hrun⟩ : ∃ run, engine.blockRun? branches attempt = some run := by
      simp only [blockRun?, hcreate]
      exact ⟨_, rfl⟩
    obtain ⟨_, _, hnode, _⟩ := blockRun?_eq_some_iff.mp hrun
    have hmem := h.mem_nodes (fun _ => mem_of_mem_terminals) attempt hmade
    exact ⟨run, List.mem_filterMap.mpr ⟨attempt, hmade, hrun⟩, hnode ▸ hmem,
      congrArg Node.id hnode⟩

/-- A loop over something begins a run. -/
theorem Loops.began_of_cons {rest : List Environment}
    (h : Loops engine depth level nodes (env :: rest) world happenings after) :
    .began level nodes ∈ happenings := by
  cases h with
  | next hfirst _ =>
    cases hfirst
    exact List.mem_cons_self
  | halted hfirst =>
    cases hfirst
    exact List.mem_cons_self

/-- A block that has something to repeat begins a run one level deeper, whether or not there are
components to run. -/
theorem Comprise.began_of_mem {runs : List BlockRun} {run : BlockRun} {rest : List Environment}
    (h : Comprise engine (depth + 1) level runs happenings) (hrun : run ∈ runs)
    (hrepeats : run.repeats? engine.tree = some (nodes, env :: rest)) :
    .began (level + 1) nodes ∈ happenings := by
  induction runs generalizing happenings with
  | nil => cases hrun
  | cons first others ih =>
    obtain rfl | hothers := List.mem_cons.mp hrun
    · cases h with
      | single hsingle _ => cases hsingle.symm.trans hrepeats
      | repeated hfirst hloop _ =>
        cases hfirst.symm.trans hrepeats
        exact List.mem_cons_of_mem _ (List.mem_append_left _ hloop.began_of_cons)
    · cases h with
      | single _ hrest => exact List.mem_cons_of_mem _ (ih hrest hothers)
      | repeated _ _ hrest =>
        exact List.mem_cons_of_mem _ (List.mem_append_right _ (ih hrest hothers))

end Engine

namespace Runner

/-- How deep nested runs of the runner may nest. -/
def depth (runner : Runner) : Nat := runner.tree.nodes.length + runner.nesting

/-- All that happens in the course of a call, from a world to the one that the call leaves. -/
inductive Unfolds (runner : Runner) (world : World) : Call → List Happening → World → Prop where
  | scope {call : Call} {nodes : List Node} {env : Environment} {happenings : List Happening}
      {ending : Ending FlowError (Option Json)} {after : World}
      (hlooked : runner.looked? call = some (nodes, env))
      (hunfolds : Engine.Unfolds runner.toEngine runner.depth call.level nodes env world happenings
        ending after) :
      Unfolds runner world call happenings after
  | unlooked {call : Call} (hlooks : call.Looks) (hlooked : runner.looked? call = none) :
      Unfolds runner world call [] world
  | pool {source label : String} {envs : List Environment} {nodes : List Node}
      {happenings : List Happening} {after : World}
      (hbranch : runner.tree.branch source label = .ok nodes)
      (hloop : Engine.Loops runner.toEngine runner.depth 1 nodes envs world happenings after) :
      Unfolds runner world (.pool source label envs) happenings after
  | noPool {source label : String} {envs : List Environment} {e : GraphError}
      (hbranch : runner.tree.branch source label = .error e) :
      Unfolds runner world (.pool source label envs) [] world
  | node {node : Node} {nodes : List Node} {env : Environment} {scope : Scope}
      {attempts : List Engine.Attempt} {happenings : List Happening}
      {ending : Ending FlowError Resolution} {after : Frame}
      (hrun : runner.toEngine.runNode runner.nested nodes env node { scope, world } =
        (ending, after))
      (hresolves : runner.toEngine.Resolves runner.nested nodes env node { scope, world } attempts
        ending after)
      (hcomprise : Engine.Comprise runner.toEngine runner.depth 0
        (attempts.filterMap (runner.toEngine.blockRun? runner.nested)) happenings) :
      Unfolds runner world (.node node nodes env scope) happenings after.world

/-- Every call unfolds. -/
theorem exists_unfolds (runner : Runner) (world : World) (call : Call) :
    ∃ happenings after, runner.Unfolds world call happenings after := by
  cases call with
  | pool source label envs =>
    cases hbranch : runner.tree.branch source label with
    | error e => exact ⟨_, _, .noPool hbranch⟩
    | ok nodes =>
      obtain ⟨happenings, after, hloop⟩ :=
        runner.toEngine.exists_loops runner.depth 1 nodes envs world
      exact ⟨_, _, .pool hbranch hloop⟩
  | node node nodes env scope =>
    obtain ⟨⟨ending, after⟩, hrun⟩ : ∃ run,
        runner.toEngine.runNode runner.nested nodes env node { scope, world } = run := ⟨_, rfl⟩
    obtain ⟨attempts, hresolves⟩ := Engine.resolves_runNode hrun
    obtain ⟨happenings, hcomprise⟩ := runner.toEngine.exists_comprise runner.depth 0
      (attempts.filterMap (runner.toEngine.blockRun? runner.nested))
    exact ⟨_, _, .node hrun hresolves hcomprise⟩
  | _ =>
    cases hlooked : runner.looked? _ with
    | none => exact ⟨_, _, .unlooked trivial hlooked⟩
    | some found =>
      obtain ⟨happenings, ending, after, hunfolds⟩ :=
        runner.toEngine.exists_unfolds runner.depth _ found.1 found.2 world
      exact ⟨_, _, .scope hlooked hunfolds⟩

/-- Nothing but what unfolds happens: it leads to the world that the call leaves. -/
theorem Unfolds.world_eq {runner : Runner} {call : Call} {session : Session}
    {happenings : List Happening} {after : World}
    (h : runner.Unfolds session.world call happenings after) :
    (runner.perform call session).2.world = after := by
  cases h with
  | scope hlooked hunfolds =>
    rw [perform_of_looked hlooked session]
    exact (run_world _ _ _ _).trans (congrArg Prod.snd hunfolds.runFresh_eq)
  | unlooked hlooks hlooked =>
    obtain ⟨e, hperform⟩ := perform_of_unlooked hlooks hlooked session
    rw [hperform]
  | pool hbranch hloop =>
    have hpool := runner.toEngine.runPool_of_branch runner.nested hbranch
    change (runner.toEngine.runPool runner.nested _ _ _ session.world).2 = after
    rw [hpool]
    exact hloop.iterate_eq
  | @noPool source label envs _ hbranch =>
    change (runner.toEngine.runPool runner.nested source label envs session.world).2 = session.world
    exact runner.toEngine.runPool_of_missing runner.nested hbranch envs session.world
  | node hrun _ _ => exact congrArg (fun run => run.2.world) hrun

end Runner

end Workflow
