import Workflow.Proofs.Block.SetState
import Workflow.Proofs.Block.Tagged
import Workflow.Proofs.Run.Unfolded

namespace Workflow

/-- Makes writes one after the other. -/
def State.writeAll (state : State) (writes : List (List String × Json)) : State :=
  writes.foldl (fun state written => state.write written.1 written.2) state

theorem State.writeAll_append (state : State) (writes more : List (List String × Json)) :
    state.writeAll (writes ++ more) = (state.writeAll writes).writeAll more := List.foldl_append

namespace BlockRun

variable {tree : Tree} {run : BlockRun}

/-- The write of a set-state block that succeeded: the path that its element leads to, and its
result. -/
def write? (tree : Tree) (run : BlockRun) : Option (List String × Json) :=
  match run.ending with
  | .ok output =>
    if run.node.type = SetState.type then
      (tree.get? run.node.id).map fun node =>
        (SetState.path node.content (run.before.state.lookup run.env), output.result)
    else none
  | _ => none

/-- The world before a block run with the write of that run. -/
def written (tree : Tree) (run : BlockRun) : World :=
  match run.write? tree with
  | some (path, value) => run.before.write run.node.id path value
  | none => run.before

/-- Only set-state blocks write. -/
theorem write?_eq_none (htype : run.node.type ≠ SetState.type) : run.write? tree = none := by
  unfold write?
  split
  · exact if_neg htype
  · rfl

theorem written_of_none (h : run.write? tree = none) : run.written tree = run.before := by
  rw [written, h]

/-- The state after a block run is the state before it with its write, if it has one. -/
theorem written_state : (run.written tree).state =
    run.before.state.writeAll (run.write? tree).toList := by
  unfold written
  cases run.write? tree <;> rfl

/-- The journal after a block run notes its write, if it has one. -/
theorem written_journal : (run.written tree).journal = run.before.journal ++
    (run.write? tree).toList.map fun written => .wrote run.node.id written.1 written.2 := by
  unfold written
  cases run.write? tree with
  | none => simp
  | some written => rfl

/-- The block run is one of the block that is made for its component. -/
def Genuine (engine : Engine) (branches : Branches) (run : BlockRun) : Prop :=
  ∃ block, engine.registry.create run.node = .ok block ∧
    block (engine.context branches run.node run.env) run.before = (run.ending, run.after)

variable {engine : Engine} {depth : Nat}

/-- The items are read without a change to the world. -/
theorem fieldJson_items (engine : Engine) (branches : Branches) (run : BlockRun) :
    (engine.context branches run.node run.env).fieldJson "items" run.before =
      Step.ofExcept (Field.evaluate engine.tree run.before.state run.env
        (Instance.pathOf run.node.id) "items" true "\x7b\x7d") run.before := rfl

/-- What a for-each block changes is what the runs that it repeats change. -/
theorem forEach_repeats {branches : Branches} {nodes : List Node} {envs : List Environment}
    (hblock : ForEach.block (engine.context branches run.node run.env) run.before =
      (run.ending, run.after))
    (hrepeats : run.repeats? engine.tree = some (nodes, envs)) :
    run.after = (branches.pool run.node.id ForEach.loopLabel envs run.before).2 := by
  obtain ⟨-, ⟨items, hitems, henvs⟩, -⟩ := repeats?_eq_some_iff.mp hrepeats
  have hfield := fieldJson_items engine branches run
  rw [hitems] at hfield
  have hworld := ForEach.block_world hfield henvs
  rw [hblock] at hworld
  exact hworld

/-- A for-each block that repeats nothing changes nothing: its items are rejected, or an edge for
its branch leads nowhere. -/
theorem forEach_single (htype : run.node.type = ForEach.type)
    (hblock : ForEach.block (engine.context (engine.branches depth) run.node run.env) run.before =
      (run.ending, run.after)) (hsingle : run.repeats? engine.tree = none) :
    run.after = run.before := by
  have hfield := fieldJson_items engine (engine.branches depth) run
  cases hitems : Field.evaluate engine.tree run.before.state run.env
    (Instance.pathOf run.node.id) "items" true "\x7b\x7d" with
  | error e =>
    rw [hitems] at hfield
    have hrun : ForEach.runItems (engine.context (engine.branches depth) run.node run.env)
        run.before = (.error e, run.before) := Step.bind_error hfield
    exact congrArg Prod.snd (hblock.symm.trans (ForEach.block_error hrun))
  | ok items =>
    rw [hitems] at hfield
    cases henvs : ForEach.envs? run.env items with
    | none =>
      have hscalar := ForEach.block_of_scalar hfield (by rintro xs rfl; cases henvs)
        (by rintro fields rfl; cases henvs)
      exact congrArg Prod.snd (hblock.symm.trans hscalar)
    | some envs =>
      have hworld := ForEach.block_world hfield henvs
      rw [hblock] at hworld
      refine hworld.trans ?_
      cases depth with
      | zero => rfl
      | succ below =>
        cases hbranch : engine.tree.branch run.node.id ForEach.loopLabel with
        | error e => exact engine.runPool_of_missing (engine.branches below) hbranch envs run.before
        | ok nodes =>
          have hrepeats := repeats?_eq_some_iff.mpr ⟨htype, ⟨items, hitems, henvs⟩, hbranch⟩
          cases hsingle.symm.trans hrepeats

/-- A set-state block changes what it writes, which is nothing if it fails. -/
theorem setState_after {branches : Branches} (htype : run.node.type = SetState.type)
    (hblock : SetState.block (engine.context branches run.node run.env) run.before =
      (run.ending, run.after)) : run.after = run.written engine.tree := by
  have hfailed : (∃ failure, SetState.block (engine.context branches run.node run.env) run.before =
      (.error failure, run.before)) → run.after = run.written engine.tree := by
    rintro ⟨failure, hfailure⟩
    obtain ⟨hending, hafter⟩ := Prod.mk.inj (hblock.symm.trans hfailure)
    rw [hafter, written_of_none (by rw [write?, hending])]
  cases hnode : engine.tree.get? run.node.id with
  | none => exact hfailed (SetState.block_of_missing hnode run.before)
  | some found =>
    obtain ⟨stored, -, hdone⟩ | hfailure :=
      SetState.block_cases (engine.context branches run.node run.env) hnode run.before
    · obtain ⟨hending, hafter⟩ := Prod.mk.inj (hblock.symm.trans hdone)
      simp only [written, write?, hending, htype, hnode, if_true, Option.map_some]
      exact hafter
    · exact hfailed hfailure

/-- A standard block that repeats nothing changes what it writes. -/
theorem Genuine.after_of_single (hgenuine : run.Genuine engine (engine.branches depth))
    (hregistry : engine.registry.WithinStandard) (hsingle : run.repeats? engine.tree = none) :
    run.after = run.written engine.tree := by
  obtain ⟨block, hcreate, hblock⟩ := hgenuine
  have hunwritten : run.node.type ≠ SetState.type → run.after = run.before →
      run.after = run.written engine.tree := fun htype hafter =>
    hafter.trans (written_of_none (write?_eq_none htype)).symm
  have hreads : (block (engine.context (engine.branches depth) run.node run.env)).Reads →
      run.after = run.before := fun hreads => by
    rw [← hreads run.before, hblock]
  obtain ⟨htype, rfl⟩ | ⟨htype, rfl⟩ | ⟨htype, rfl⟩ | ⟨htype, rfl⟩ | ⟨htype, rfl⟩ :=
    Registry.create_standard_cases (hregistry.create_standard hcreate)
  · exact hunwritten (htype ▸ by decide) (forEach_single htype hblock hsingle)
  · exact hunwritten (htype ▸ by decide) (hreads (LogMessage.block_reads _))
  · exact hunwritten (htype ▸ by decide) (hreads (ParseJson.block_reads _))
  · exact hunwritten (htype ▸ by decide) (hreads (ReturnValue.block_reads _))
  · exact setState_after htype hblock

/-- A standard block that repeats components changes what running them in a loop does. -/
theorem Genuine.after_of_repeats (hgenuine : run.Genuine engine (engine.branches depth))
    (hregistry : engine.registry.WithinStandard) {nodes : List Node} {envs : List Environment}
    (hrepeats : run.repeats? engine.tree = some (nodes, envs)) :
    run.written engine.tree = run.before ∧ (depth = 0 → run.after = run.before) ∧
      ∀ below, depth = below + 1 →
        run.after =
          (iterate (engine.runFresh (engine.branches below) nodes) envs run.before).2 := by
  obtain ⟨block, hcreate, hblock⟩ := hgenuine
  obtain ⟨htype, -, hbranch⟩ := repeats?_eq_some_iff.mp hrepeats
  obtain rfl := Registry.eq_forEach_of_create hregistry.find?_forEach hcreate htype
  have hafter := forEach_repeats hblock hrepeats
  refine ⟨written_of_none (write?_eq_none (htype ▸ by decide)), ?_, ?_⟩
  · rintro rfl
    exact hafter
  · rintro below rfl
    rw [hafter, ← engine.runPool_of_branch (engine.branches below) hbranch]
    rfl

end BlockRun

/-- Each of the block runs begins, with a note of its start, in the world that the one before it
leaves. -/
inductive BlockRun.Chain : World → List BlockRun → World → Prop where
  | done {world : World} : Chain world [] world
  | next {world after : World} {run : BlockRun} {rest : List BlockRun}
      (hbefore : run.before = world.note (.started run.node.id run.node.type))
      (hrest : Chain run.after rest after) : Chain world (run :: rest) after

namespace Engine

variable {engine : Engine} {branches : Branches}

/-- The block runs of attempts are runs of the blocks that are made for their components. -/
theorem genuine_of_mem_blockRuns (attempts : List Attempt) :
    ∀ run ∈ attempts.filterMap (engine.blockRun? branches), run.Genuine engine branches := by
  intro run hrun
  obtain ⟨attempt, _, hmade⟩ := List.mem_filterMap.mp hrun
  obtain ⟨block, hcreate, hnode, henv, _, hblock⟩ := blockRun?_eq_some_iff.mp hmade
  exact ⟨block, hnode ▸ hcreate, hnode ▸ henv ▸ hblock⟩

/-- An attempt either makes no block and changes nothing, or its block run begins and ends where it
does. -/
theorem blockRun?_cases {attempt : Attempt}
    (h : Executes engine branches attempt.node attempt.env attempt.before attempt.ending
      attempt.after) :
    (engine.blockRun? branches attempt = none ∧ attempt.after.world = attempt.before.world) ∨
    ∃ run, engine.blockRun? branches attempt = some run ∧
      run.before = attempt.before.world.note (.started run.node.id run.node.type) ∧
      run.after = attempt.after.world := by
  obtain ⟨node, env, before, ending, after⟩ := attempt
  dsimp only at h
  cases h with
  | uncreated hcreate => exact Or.inl ⟨by simp only [blockRun?, hcreate], rfl⟩
  | succeeded hcreate hblock | contained hcreate hblock _ | failed hcreate hblock _
  | crashed hcreate hblock | tooDeep hcreate hblock =>
    refine Or.inr ⟨⟨_, _, _, _, _⟩, blockRun?_eq_some_iff.mpr ⟨_, hcreate, rfl, rfl, rfl, hblock⟩,
      rfl, rfl⟩

/-- The block runs of attempts that follow on each other do so as well. -/
theorem Linked.chain {frame after : Frame} {attempts : List Attempt}
    (h : Linked frame attempts after)
    (hexecutes : ∀ attempt ∈ attempts, Executes engine branches attempt.node attempt.env
      attempt.before attempt.ending attempt.after) :
    BlockRun.Chain frame.world (attempts.filterMap (engine.blockRun? branches)) after.world := by
  induction h with
  | done hstill =>
    rw [Frame.world_eq_of_still hstill]
    exact .done
  | @next frame after attempt rest hstill _ ih =>
    obtain ⟨hfirst, hothers⟩ := List.forall_mem_cons.mp hexecutes
    have hrest := ih hothers
    rw [Frame.world_eq_of_still hstill]
    obtain ⟨hnone, hsame⟩ | ⟨run, hsome, hbefore, hafter⟩ := blockRun?_cases hfirst
    · rw [List.filterMap_cons_none hnone, ← hsame]
      exact hrest
    · rw [List.filterMap_cons_some hsome]
      exact .next hbefore (hafter ▸ hrest)

end Engine

/-- The write among what happens, if it is the run of a set-state block that succeeded. -/
def Happening.write? (tree : Tree) : Happening → Option (List String × Json)
  | .began _ _ => none
  | .ran run => run.write? tree

theorem Happening.filterMap_write?_ran (tree : Tree) (run : BlockRun) (more : List Happening) :
    (.ran run :: more).filterMap (write? tree) =
      (run.write? tree).toList ++ more.filterMap (write? tree) := by
  rw [List.filterMap_cons]
  simp only [write?]
  cases run.write? tree <;> rfl

/-- What the journal tells about something that happens: the start of a block, and its write. -/
def Happening.events (tree : Tree) : Happening → List Event
  | .began _ _ => []
  | .ran run => .started run.node.id run.node.type ::
    (run.write? tree).toList.map fun written => .wrote run.node.id written.1 written.2

/-- What happens leads from one world to another: block runs begin where those before them lead, and
only their writes change the world. -/
inductive Replays (tree : Tree) : World → List Happening → World → Prop where
  | done {world : World} : Replays tree world [] world
  | began {world after : World} {level : Nat} {nodes : List Node} {more : List Happening}
      (hrest : Replays tree world more after) :
      Replays tree world (.began level nodes :: more) after
  | ran {world after : World} {run : BlockRun} {more : List Happening}
      (hbefore : run.before = world.note (.started run.node.id run.node.type))
      (hsingle : run.repeats? tree = none → run.after = run.written tree)
      (hrest : Replays tree (run.written tree) more after) :
      Replays tree world (.ran run :: more) after

namespace Replays

variable {tree : Tree} {world between after : World} {happenings more : List Happening}

/-- What happens in two stretches is replayed one after the other. -/
theorem append (h : Replays tree world happenings between)
    (hmore : Replays tree between more after) :
    Replays tree world (happenings ++ more) after := by
  induction h with
  | done => exact hmore
  | began _ ih => exact .began (ih hmore)
  | ran hbefore hsingle _ ih => exact .ran hbefore hsingle (ih hmore)

/-- What happens is replayed up to any moment and from there on. -/
theorem split (h : Replays tree world (happenings ++ more) after) :
    ∃ between, Replays tree world happenings between ∧ Replays tree between more after := by
  induction happenings generalizing world with
  | nil => exact ⟨world, .done, h⟩
  | cons first rest ih =>
    cases h with
    | began hrest =>
      obtain ⟨between, hfirst, hlast⟩ := ih hrest
      exact ⟨between, .began hfirst, hlast⟩
    | ran hbefore hsingle hrest =>
      obtain ⟨between, hfirst, hlast⟩ := ih hrest
      exact ⟨between, .ran hbefore hsingle hfirst, hlast⟩

/-- The state is the one before with all writes in their order. -/
theorem state_eq (h : Replays tree world happenings after) :
    after.state = world.state.writeAll (happenings.filterMap (Happening.write? tree)) := by
  induction h with
  | done => rfl
  | began _ ih => exact ih
  | @ran world after run more hbefore _ _ ih =>
    have hstate : run.before.state = world.state := by
      rw [hbefore]
      rfl
    rw [ih, BlockRun.written_state, hstate, Happening.filterMap_write?_ran, State.writeAll_append]

/-- The journal notes all that happens, in its order. -/
theorem journal_eq (h : Replays tree world happenings after) :
    after.journal = world.journal ++ happenings.flatMap (Happening.events tree) := by
  induction h with
  | done => simp
  | began _ ih => exact ih
  | @ran world after run more hbefore _ _ ih =>
    rw [ih, BlockRun.written_journal, hbefore, List.flatMap_cons]
    simp [World.note, Happening.events]

end Replays

namespace Engine

variable {engine : Engine}

mutual

/-- All that happens in a run leads to the world that the run leaves. -/
theorem Unfolds.replays {depth level : Nat} {nodes : List Node} {env : Environment}
    {world after : World} {happenings : List Happening} {ending : Ending FlowError (Option Json)}
    (h : Unfolds engine depth level nodes env world happenings ending after)
    (hregistry : engine.registry.WithinStandard) : Replays engine.tree world happenings after := by
  match h with
  | .scope _ hpulls hcomprise =>
    exact .began (hcomprise.replays hregistry (genuine_of_mem_blockRuns _)
      (hpulls.linked.chain hpulls.executes))

/-- All that happens in the course of block runs that follow on each other leads from the first to
the last. -/
theorem Comprise.replays {depth level : Nat} {runs : List BlockRun} {world after : World}
    {happenings : List Happening} (h : Comprise engine depth level runs happenings)
    (hregistry : engine.registry.WithinStandard)
    (hgenuine : ∀ run ∈ runs, run.Genuine engine (engine.branches depth))
    (hchain : BlockRun.Chain world runs after) : Replays engine.tree world happenings after := by
  match h with
  | .done =>
    cases hchain
    exact .done
  | .single hsingle hrest =>
    obtain ⟨hfirst, hothers⟩ := List.forall_mem_cons.mp hgenuine
    cases hchain with
    | next hbefore hnext =>
      have hafter := hfirst.after_of_single hregistry hsingle
      exact .ran hbefore (fun _ => hafter) (hrest.replays hregistry hothers (hafter ▸ hnext))
  | .tooDeep hrepeats hrest =>
    obtain ⟨hfirst, hothers⟩ := List.forall_mem_cons.mp hgenuine
    cases hchain with
    | next hbefore hnext =>
      obtain ⟨hwritten, hafter, _⟩ := hfirst.after_of_repeats hregistry hrepeats
      refine .ran hbefore (fun hsingle => ?_) ?_
      · cases hsingle.symm.trans hrepeats
      · rw [hwritten]
        exact hrest.replays hregistry hothers (hafter rfl ▸ hnext)
  | .repeated hrepeats hloop hrest =>
    obtain ⟨hfirst, hothers⟩ := List.forall_mem_cons.mp hgenuine
    cases hchain with
    | next hbefore hnext =>
      obtain ⟨hwritten, _, hafter⟩ := hfirst.after_of_repeats hregistry hrepeats
      refine .ran hbefore (fun hsingle => ?_) ?_
      · cases hsingle.symm.trans hrepeats
      · rw [hwritten]
        have hleft := (hafter _ rfl).trans hloop.iterate_eq
        exact (hloop.replays hregistry).append (hrest.replays hregistry hothers (hleft ▸ hnext))

/-- All that happens in a loop leads to the world that the loop leaves. -/
theorem Loops.replays {depth level : Nat} {nodes : List Node} {envs : List Environment}
    {world after : World} {happenings : List Happening}
    (h : Loops engine depth level nodes envs world happenings after)
    (hregistry : engine.registry.WithinStandard) : Replays engine.tree world happenings after := by
  match h with
  | .done => exact .done
  | .next hfirst hrest => exact (hfirst.replays hregistry).append (hrest.replays hregistry)
  | .halted hfirst => exact hfirst.replays hregistry

end

end Engine

namespace Runner

variable {runner : Runner}

/-- All that happens in the course of a call leads to the world that the call leaves. -/
theorem Unfolds.replays {call : Call} {world after : World} {happenings : List Happening}
    (h : runner.Unfolds world call happenings after) (hregistry : runner.registry.WithinStandard) :
    Replays runner.tree world happenings after := by
  cases h with
  | scope _ hunfolds => exact hunfolds.replays hregistry
  | unlooked _ _ => exact .done
  | pool _ hloop => exact hloop.replays hregistry
  | noPool _ => exact .done
  | node _ hresolves hcomprise =>
    exact hcomprise.replays hregistry (Engine.genuine_of_mem_blockRuns _)
      (hresolves.linked.chain hresolves.executes)

/-- With standard block types alone, the state after a call is the state before it with the writes
of the set-state blocks that succeeded, in nested runs or not, in the order in which those blocks
ran, however the call ends. The journal tells of just these block runs and their writes. Each block
run finds the state that the writes before it have made, and leaves that state with its own write,
or as it was if it has none, unless it is a for-each block that repeats components. -/
theorem state_eq_writes (hregistry : runner.registry.WithinStandard) (call : Call)
    (session : Session) :
    (∃ happenings after, runner.Unfolds session.world call happenings after) ∧
    ∀ happenings after, runner.Unfolds session.world call happenings after →
      (runner.perform call session).2.world = after ∧
      after.state = session.world.state.writeAll
        (happenings.filterMap (Happening.write? runner.tree)) ∧
      after.journal = session.world.journal ++
        happenings.flatMap (Happening.events runner.tree) ∧
      ∀ earlier run later, happenings = earlier ++ .ran run :: later →
        run.before.state = session.world.state.writeAll
          (earlier.filterMap (Happening.write? runner.tree)) ∧
        (run.repeats? runner.tree = none →
          run.after.state = run.before.state.writeAll (run.write? runner.tree).toList) := by
  refine ⟨runner.exists_unfolds session.world call, fun happenings after hunfolds => ?_⟩
  have hreplays := hunfolds.replays hregistry
  refine ⟨hunfolds.world_eq, hreplays.state_eq, hreplays.journal_eq, ?_⟩
  rintro earlier run later rfl
  obtain ⟨between, hearlier, hlater⟩ := hreplays.split
  cases hlater with
  | ran hbefore hsingle _ =>
    refine ⟨?_, fun hnone => ?_⟩
    · rw [hbefore, ← hearlier.state_eq]
      rfl
    · rw [hsingle hnone, BlockRun.written_state]

end Runner

namespace Sample

/-- Stores a value once for each of two items. -/
def marker : Runner where
  registry := .standard
  tree :=
    { nodes :=
        [{ id := "w", type := Node.workflowType },
         { id := "f", type := ForEach.type, parent? := some "w"
           content := [("items", .list [.text "a", .text "b"])]
           outs := [⟨ForEach.loopLabel, "s"⟩] },
         { id := "s", type := SetState.type, parent? := some "f"
           content := [("element", .text "seen.@\x7bitem\x7d"), ("value", .text "v")] }]
      distinct := by decide +kernel }
  nesting := 0

end Sample

/-- The writes of both nested runs are in the state. -/
theorem Runner.state_eq_writes_marker :
    ∃ happenings after, Sample.marker.registry.WithinStandard ∧
      Sample.marker.Unfolds {} (.workflow "w" .empty) happenings after ∧
      (Json.object after.state).compact =
        "\x7b\"seen\":\x7b\"a\":\"v\",\"b\":\"v\"\x7d\x7d" ∧
      after.state = State.writeAll [] (happenings.filterMap (Happening.write? Sample.marker.tree)) ∧
      after.startedOf SetState.type = ["s", "s"] := by
  have hregistry : Sample.marker.registry.WithinStandard := Registry.withinStandard_standard
  have hstate :
      (Json.object (Sample.marker.perform (.workflow "w" .empty) {}).2.world.state).compact =
        "\x7b\"seen\":\x7b\"a\":\"v\",\"b\":\"v\"\x7d\x7d" := by decide +kernel
  have hstarted : (Sample.marker.perform (.workflow "w" .empty) {}).2.world.startedOf
      SetState.type = ["s", "s"] := by decide +kernel
  obtain ⟨⟨happenings, after, hunfolds⟩, hwrites⟩ :=
    Runner.state_eq_writes hregistry (.workflow "w" .empty) {}
  obtain ⟨hworld, hreplayed, _⟩ := hwrites happenings after hunfolds
  rw [hworld] at hstate hstarted
  exact ⟨happenings, after, hregistry, hunfolds, hstate, hreplayed, hstarted⟩

end Workflow
