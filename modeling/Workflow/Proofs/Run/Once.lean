import Workflow.Block.Scripted
import Workflow.Proofs.Run.Adequacy
import Workflow.Run.Runner

namespace Workflow

/-- What resolving adds to a scope: records of components that were not being resolved, each after
its block was started, and at last the components whose blocks were broken off. -/
structure Scope.Adds (before after : Scope) (new : List Record) (broken : List String) : Prop where
  records : after.records = before.records ++ new
  started : after.started = before.started ++ new.map Record.id ++ broken
  idle : ∀ record ∈ new, record.id ∉ before.resolving
  indexed : after.Indexed

namespace Scope.Adds

theorem refl {scope : Scope} (hindexed : scope.Indexed) : scope.Adds scope [] [] :=
  ⟨by simp, by simp, by simp, hindexed⟩

/-- What is added in two stretches is added in all. -/
theorem trans {first second third : Scope} {new more : List Record} {broken : List String}
    (hfirst : first.Adds second new []) (hresolving : second.resolving = first.resolving)
    (hsecond : second.Adds third more broken) : first.Adds third (new ++ more) broken := by
  refine ⟨?_, ?_, ?_, hsecond.indexed⟩
  · rw [hsecond.records, hfirst.records, List.append_assoc]
  · rw [hsecond.started, hfirst.started]
    simp
  · intro record hrecord
    rcases List.mem_append.mp hrecord with hnew | hmore
    · exact hfirst.idle record hnew
    · rw [← hresolving]
      exact hsecond.idle record hmore

/-- A component that is being resolved is recorded by nothing else. -/
theorem get?_eq_none {before after : Scope} {new : List Record} {broken : List String}
    (hadds : before.Adds after new broken) (hbefore : before.Indexed) {id : String}
    (hnew : before.get? id = none) (hresolving : id ∈ before.resolving) : after.get? id = none := by
  rw [hbefore.get?_eq_none_iff] at hnew
  rw [hadds.indexed.get?_eq_none_iff, hadds.records, List.map_append, List.mem_append]
  rintro (hold | hmem)
  · exact hnew hold
  · obtain ⟨record, hrecord, rfl⟩ := List.mem_map.mp hmem
    exact hadds.idle record hrecord hresolving

end Scope.Adds

namespace Engine

variable {engine : Engine} {branches : Branches} {nodes : List Node} {env : Environment}

/-- The block of a component that is run in its environment and the given world leaves this record,
whether it succeeds or fails. -/
inductive Leaves (engine : Engine) (branches : Branches) (node : Node) (env : Environment)
    (world : World) : Record → Prop where
  | succeeded {block : Block} {output : Output} {after : World}
      (hcreate : engine.registry.create node = .ok block)
      (hblock : block (engine.context branches node env) world = (.ok output, after)) :
      Leaves engine branches node env world (output.record node env)
  | failed {block : Block} {failure : Failure} {after : World}
      (hcreate : engine.registry.create node = .ok block)
      (hblock : block (engine.context branches node env) world = (.error failure, after)) :
      Leaves engine branches node env world (failure.record node env)

theorem Leaves.id_eq {node : Node} {world : World} {record : Record}
    (h : Leaves engine branches node env world record) : record.id = node.id := by
  cases h <;> rfl

theorem Leaves.env_eq {node : Node} {world : World} {record : Record}
    (h : Leaves engine branches node env world record) : record.env = env := by
  cases h <;> rfl

/-- Executing a component without a record appends the one that its block leaves after that was
started, and ends with that record or with an error. Otherwise it halts and leaves at most a block
that was broken off. -/
theorem Executes.appends {node : Node} {frame after : Frame} {ending : Ending FlowError Resolution}
    (h : Executes engine branches node env frame ending after) (hindexed : frame.scope.Indexed)
    (hnew : frame.scope.get? node.id = none) :
    after.scope.Indexed ∧
      ((∃ record : Record,
          Leaves engine branches node env (frame.world.note (.started node.id node.type)) record ∧
          after.scope.records = frame.scope.records ++ [record] ∧
          after.scope.started = frame.scope.started ++ [node.id] ∧
          (ending = .ok (.reached record) ∨ record.returned? = none ∧ ∃ e, ending = .error e)) ∨
        ∃ (halt : Halt FlowError) (broken : List String), ending = halt.ending ∧
          after.scope.records = frame.scope.records ∧
          after.scope.started = frame.scope.started ++ broken ∧
          (∀ id ∈ broken, id = node.id) ∧ (ending.Completes → broken = [])) := by
  cases h with
  | @uncreated e _ =>
    exact ⟨hindexed, .inr ⟨.error e, [], rfl, rfl, by simp, nofun, fun _ => rfl⟩⟩
  | @succeeded block output world hcreate hblock =>
    have hleaves := Leaves.succeeded hcreate hblock
    obtain ⟨hafter, hrecords⟩ := hindexed.insert_start hnew hleaves.id_eq
    exact ⟨hafter, .inl ⟨_, hleaves, hrecords, by simp, .inl rfl⟩⟩
  | @contained block failure world hcreate hblock _ =>
    have hleaves := Leaves.failed hcreate hblock
    obtain ⟨hafter, hrecords⟩ := hindexed.insert_start hnew hleaves.id_eq
    exact ⟨hafter, .inl ⟨_, hleaves, hrecords, by simp, .inl rfl⟩⟩
  | @failed block failure world hcreate hblock _ =>
    have hleaves := Leaves.failed hcreate hblock
    obtain ⟨hafter, hrecords⟩ := hindexed.insert_start hnew hleaves.id_eq
    exact ⟨hafter, .inl ⟨_, hleaves, hrecords, by simp, .inr ⟨rfl, _, rfl⟩⟩⟩
  | @crashed _ report =>
    exact ⟨hindexed, .inr ⟨.crashed report, [node.id], rfl, rfl, rfl, by simp, False.elim⟩⟩
  | tooDeep =>
    exact ⟨hindexed, .inr ⟨.tooDeep, [node.id], rfl, rfl, rfl, by simp, False.elim⟩⟩

/-- Executing a component without a record adds at most that of the component, and starts no other
block. -/
theorem Executes.adds {node : Node} {frame after : Frame} {ending : Ending FlowError Resolution}
    (h : Executes engine branches node env frame ending after) (hindexed : frame.scope.Indexed)
    (hnew : frame.scope.get? node.id = none) :
    ∃ new broken, after.scope.records = frame.scope.records ++ new ∧
      after.scope.started = frame.scope.started ++ new.map Record.id ++ broken ∧
      (∀ record ∈ new, record.id = node.id) ∧ (∀ id ∈ broken, id = node.id) ∧
      after.scope.Indexed ∧ (ending.Completes → broken = []) := by
  obtain ⟨hafter, ⟨record, hleaves, hrecords, hstarted, _⟩ |
    ⟨halt, broken, _, hrecords, hstarted, hbroken, hcompletes⟩⟩ := h.appends hindexed hnew
  · have hid := hleaves.id_eq
    exact ⟨[record], [], hrecords, by simp [hstarted, hid], by simp [hid], nofun, hafter,
      fun _ => rfl⟩
  · exact ⟨[], broken, by simp [hrecords], by simp [hstarted], nofun, hbroken, hafter, hcompletes⟩

/-- A component that was entered is left with what gathering for it and executing it added. -/
private theorem adds_of_enters {node : Node} {frame after : Frame} {new : List Record}
    {broken : List String} (hadds : (frame.enter node.id).scope.Adds after.scope new broken) :
    frame.scope.Adds (after.leave node.id).scope new broken :=
  ⟨hadds.records, hadds.started,
    fun record hrecord hmem => hadds.idle record hrecord (List.mem_cons_of_mem _ hmem),
    hadds.indexed.leave node.id⟩

mutual

/-- Resolving adds records of components that were not being resolved, and all that it started,
unless a block was broken off. -/
theorem Resolves.adds {node : Node} {frame after : Frame} {attempts : List Attempt}
    {ending : Ending FlowError Resolution}
    (h : Resolves engine branches nodes env node frame attempts ending after)
    (hindexed : frame.scope.Indexed) :
    ∃ new broken, frame.scope.Adds after.scope new broken ∧ (ending.Completes → broken = []) := by
  match h with
  | .unregistered _ => exact ⟨[], [], .refl hindexed, fun _ => rfl⟩
  | .recorded _ _ => exact ⟨[], [], .refl hindexed, fun _ => rfl⟩
  | .cyclic _ _ _ => exact ⟨[], [], .refl hindexed, fun _ => rfl⟩
  | .halted _ hgathers =>
    obtain ⟨new, broken, hadds, hcompletes⟩ := hgathers.adds (hindexed.enter node.id)
    exact ⟨new, broken, adds_of_enters hadds, fun h => hcompletes (Halt.completes_ending h)⟩
  | .returned _ hgathers =>
    obtain ⟨new, broken, hadds, hcompletes⟩ := hgathers.adds (hindexed.enter node.id)
    exact ⟨new, broken, adds_of_enters hadds, fun _ => hcompletes trivial⟩
  | .unreached _ hgathers _ =>
    obtain ⟨new, broken, hadds, hcompletes⟩ := hgathers.adds (hindexed.enter node.id)
    exact ⟨new, broken, adds_of_enters hadds, fun _ => hcompletes trivial⟩
  | .executed henters hgathers _ hexecutes =>
    obtain ⟨new, broken, hadds, hcompletes⟩ := hgathers.adds (hindexed.enter node.id)
    obtain rfl := hcompletes trivial
    have hresolving := hgathers.resolving_eq
    have hmem : node.id ∈ (frame.enter node.id).scope.resolving := List.mem_cons_self
    have hunrecorded := hadds.get?_eq_none (hindexed.enter node.id) henters.unrecorded hmem
    obtain ⟨own, broken, hrecords, hstarted, hown, _, hafter, hcompletes⟩ :=
      hexecutes.adds hadds.indexed hunrecorded
    -- The component itself is being resolved; its record is new to the scope it was entered in.
    refine ⟨new ++ own, broken, ⟨?_, ?_, ?_, hafter.leave node.id⟩, hcompletes⟩
    · simpa [Frame.leave, hadds.records, Frame.enter] using hrecords
    · simpa [Frame.leave, hadds.started, Frame.enter] using hstarted
    · intro record hrecord
      rcases List.mem_append.mp hrecord with hnew | hlast
      · exact (adds_of_enters hadds).idle record hnew
      · rw [hown record hlast]
        exact henters.idle

/-- Gathering adds records of components that were not being resolved. -/
theorem Gathers.adds {needed : List (Node × String)} {result : Json} {fired : Bool}
    {frame after : Frame} {attempts : List Attempt} {ending : Ending FlowError Gathered}
    (h : Gathers engine branches nodes env needed result fired frame attempts ending after)
    (hindexed : frame.scope.Indexed) :
    ∃ new broken, frame.scope.Adds after.scope new broken ∧ (ending.Completes → broken = []) := by
  match h with
  | .done => exact ⟨[], [], .refl hindexed, fun _ => rfl⟩
  | .halted hresolves =>
    obtain ⟨new, broken, hadds, hcompletes⟩ := hresolves.adds hindexed
    exact ⟨new, broken, hadds, fun h => hcompletes (Halt.completes_ending h)⟩
  | .returned hresolves =>
    obtain ⟨new, broken, hadds, hcompletes⟩ := hresolves.adds hindexed
    exact ⟨new, broken, hadds, fun _ => hcompletes trivial⟩
  | .unreached hresolves hrest =>
    obtain ⟨new, broken, hadds, hcompletes⟩ := hresolves.adds hindexed
    obtain rfl := hcompletes trivial
    obtain ⟨more, broken, hmore, hcompletes⟩ := hrest.adds hadds.indexed
    exact ⟨new ++ more, broken, hadds.trans hresolves.resolving_eq hmore, hcompletes⟩
  | .ended hresolves _ =>
    obtain ⟨new, broken, hadds, hcompletes⟩ := hresolves.adds hindexed
    exact ⟨new, broken, hadds, fun _ => hcompletes trivial⟩
  | .reached hresolves _ hrest =>
    obtain ⟨new, broken, hadds, hcompletes⟩ := hresolves.adds hindexed
    obtain rfl := hcompletes trivial
    obtain ⟨more, broken, hmore, hcompletes⟩ := hrest.adds hadds.indexed
    exact ⟨new ++ more, broken, hadds.trans hresolves.resolving_eq hmore, hcompletes⟩

end

theorem Resolves.indexed {node : Node} {frame after : Frame} {attempts : List Attempt}
    {ending : Ending FlowError Resolution}
    (h : Resolves engine branches nodes env node frame attempts ending after)
    (hindexed : frame.scope.Indexed) : after.scope.Indexed := by
  obtain ⟨new, broken, hadds, _⟩ := h.adds hindexed
  exact hadds.indexed

/-- After gathering for a component that was entered, it still has no record. -/
theorem Gathers.unrecorded {node : Node} {needed : List (Node × String)} {result : Json}
    {fired : Bool} {frame between : Frame} {attempts : List Attempt}
    {ending : Ending FlowError Gathered}
    (h : Gathers engine branches nodes env needed result fired (frame.enter node.id) attempts
      ending between)
    (hindexed : frame.scope.Indexed) (henters : engine.Enters node frame) :
    between.scope.Indexed ∧ between.scope.get? node.id = none := by
  obtain ⟨new, broken, hadds, _⟩ := h.adds (hindexed.enter node.id)
  exact ⟨hadds.indexed,
    hadds.get?_eq_none (hindexed.enter node.id) henters.unrecorded List.mem_cons_self⟩

/-- A run of components adds to a scope as the resolving of each of them does. -/
theorem Pulls.adds {pulled : List Node} {frame after : Frame} {attempts : List Attempt}
    {ending : Ending FlowError (Option Json)}
    (h : Pulls engine branches nodes env pulled frame attempts ending after)
    (hindexed : frame.scope.Indexed) :
    ∃ new broken, frame.scope.Adds after.scope new broken ∧ (ending.Completes → broken = []) := by
  induction h with
  | done => exact ⟨[], [], .refl hindexed, fun _ => rfl⟩
  | halted hresolves =>
    obtain ⟨new, broken, hadds, hcompletes⟩ := hresolves.adds hindexed
    exact ⟨new, broken, hadds, fun h => hcompletes (Halt.completes_ending h)⟩
  | returned hresolves =>
    obtain ⟨new, broken, hadds, hcompletes⟩ := hresolves.adds hindexed
    exact ⟨new, broken, hadds, fun _ => hcompletes trivial⟩
  | ended hresolves _ =>
    obtain ⟨new, broken, hadds, hcompletes⟩ := hresolves.adds hindexed
    exact ⟨new, broken, hadds, fun _ => hcompletes trivial⟩
  | unreached hresolves _ ih =>
    obtain ⟨new, broken, hadds, hcompletes⟩ := hresolves.adds hindexed
    obtain rfl := hcompletes trivial
    obtain ⟨more, broken, hmore, hcompletes⟩ := ih hadds.indexed
    exact ⟨new ++ more, broken, hadds.trans hresolves.resolving_eq hmore, hcompletes⟩
  | reached hresolves _ _ ih =>
    obtain ⟨new, broken, hadds, hcompletes⟩ := hresolves.adds hindexed
    obtain rfl := hcompletes trivial
    obtain ⟨more, broken, hmore, hcompletes⟩ := ih hadds.indexed
    exact ⟨new ++ more, broken, hadds.trans hresolves.resolving_eq hmore, hcompletes⟩

/-- An attempt is sound if it is an execution of its component while that has no record. -/
structure Attempt.Sound (engine : Engine) (branches : Branches) (attempt : Attempt) : Prop where
  executes : Executes engine branches attempt.node attempt.env attempt.before attempt.ending
    attempt.after
  indexed : attempt.before.scope.Indexed
  unrecorded : attempt.before.scope.get? attempt.node.id = none

mutual

/-- A block is executed only while its component has no record, so no record is ever replaced. -/
theorem Resolves.sound {node : Node} {frame after : Frame} {attempts : List Attempt}
    {ending : Ending FlowError Resolution}
    (h : Resolves engine branches nodes env node frame attempts ending after)
    (hindexed : frame.scope.Indexed) : ∀ attempt ∈ attempts, attempt.Sound engine branches := by
  match h with
  | .unregistered _ => exact List.forall_mem_nil _
  | .recorded _ _ => exact List.forall_mem_nil _
  | .cyclic _ _ _ => exact List.forall_mem_nil _
  | .halted _ hgathers => exact hgathers.sound (hindexed.enter node.id)
  | .returned _ hgathers => exact hgathers.sound (hindexed.enter node.id)
  | .unreached _ hgathers _ => exact hgathers.sound (hindexed.enter node.id)
  | .executed henters hgathers _ hexecutes =>
    obtain ⟨hbetween, hunrecorded⟩ := hgathers.unrecorded hindexed henters
    exact List.forall_mem_append.mpr ⟨hgathers.sound (hindexed.enter node.id),
      List.forall_mem_singleton.mpr ⟨hexecutes, hbetween, hunrecorded⟩⟩

/-- Every attempt of gathering is made on a component without a record. -/
theorem Gathers.sound {needed : List (Node × String)} {result : Json} {fired : Bool}
    {frame after : Frame} {attempts : List Attempt} {ending : Ending FlowError Gathered}
    (h : Gathers engine branches nodes env needed result fired frame attempts ending after)
    (hindexed : frame.scope.Indexed) : ∀ attempt ∈ attempts, attempt.Sound engine branches := by
  match h with
  | .done => exact List.forall_mem_nil _
  | .halted hresolves => exact hresolves.sound hindexed
  | .returned hresolves => exact hresolves.sound hindexed
  | .unreached hresolves hrest =>
    exact List.forall_mem_append.mpr
      ⟨hresolves.sound hindexed, hrest.sound (hresolves.indexed hindexed)⟩
  | .ended hresolves _ => exact hresolves.sound hindexed
  | .reached hresolves _ hrest =>
    exact List.forall_mem_append.mpr
      ⟨hresolves.sound hindexed, hrest.sound (hresolves.indexed hindexed)⟩

end

end Engine

/-- The scopes that arise when components are resolved one after the other in a scope that starts
empty. Runners, components, environments and what lives on outside the scope may change between
the calls; each call came to a result or an error. -/
inductive Scope.Arises : Scope → Prop where
  | empty : Arises {}
  | call {scope after : Scope} {runner : Runner} {node : Node} {nodes : List Node}
      {env : Environment} {session later : Session} {ending : Ending FlowError Resolution}
      (harises : Arises scope)
      (hcall : runner.runNode node nodes env (scope, session) = (ending, after, later))
      (hcompletes : ending.Completes) : Arises after

/-- A call of a runner resolves the component in a frame of the scope and the session's world. -/
theorem Runner.resolves_runNode {runner : Runner} {node : Node} {nodes : List Node}
    {env : Environment} {scope after : Scope} {session later : Session}
    {ending : Ending FlowError Resolution}
    (hcall : runner.runNode node nodes env (scope, session) = (ending, after, later)) :
    ∃ attempts, runner.toEngine.Resolves runner.nested nodes env node
      { scope, world := session.world } attempts ending { scope := after, world := later.world } := by
  obtain ⟨rfl, rfl, rfl⟩ : _ ∧ _ ∧ _ := by simpa only [Runner.runNode, Prod.mk.injEq] using hcall
  exact Engine.resolves_runNode rfl

/-- A scope that arises from calls is idle between them, and has started just what it recorded. -/
theorem Scope.Arises.idle {scope : Scope} (harises : scope.Arises) :
    scope.Indexed ∧ scope.started = scope.records.map Record.id ∧ scope.resolving = [] := by
  induction harises with
  | empty => exact ⟨.empty, rfl, rfl⟩
  | @call scope after _ _ _ _ _ _ _ _ hcall hcompletes ih =>
    obtain ⟨hindexed, hstarted, hresolving⟩ := ih
    obtain ⟨attempts, hresolves⟩ := Runner.resolves_runNode hcall
    obtain ⟨new, broken, hadds, hbroken⟩ := hresolves.adds hindexed
    obtain rfl := hbroken hcompletes
    refine ⟨hadds.indexed, ?_, hresolves.resolving_eq.trans hresolving⟩
    have hrecords : after.records = scope.records ++ new := hadds.records
    rw [hrecords, List.map_append, ← hstarted]
    simpa using hadds.started

/-- A call on such a scope keeps the records, and appends those of exactly the components whose
blocks it started, in that order. No component is recorded or started twice, no attempt is made on
a component that is in the index, so no record is replaced; the index holds exactly the positions
of the records, and the components being resolved are again those from before the call, that is
none. -/
theorem Scope.Arises.runNode_once {scope after : Scope} (harises : scope.Arises)
    {runner : Runner} {node : Node} {nodes : List Node} {env : Environment}
    {session later : Session} {ending : Ending FlowError Resolution}
    (hcall : runner.runNode node nodes env (scope, session) = (ending, after, later))
    (hcompletes : ending.Completes) :
    ((after.records.map Record.id).Nodup ∧
      ∀ id i, after.index.find? id = some i ↔ after.records[i]?.map Record.id = some id) ∧
    ((∃ new, after.records = scope.records ++ new ∧
        after.started = scope.started ++ new.map Record.id) ∧
      after.started.Nodup ∧
      ∃ attempts, runner.toEngine.Resolves runner.nested nodes env node
          { scope, world := session.world } attempts ending
          { scope := after, world := later.world } ∧
        ∀ attempt ∈ attempts, attempt.before.scope.index.find? attempt.node.id = none) ∧
    (after.resolving = scope.resolving ∧ after.resolving = []) := by
  obtain ⟨hindexed, _, hresolving⟩ := harises.idle
  obtain ⟨hafter, hstarted, hidle⟩ := (harises.call hcall hcompletes).idle
  obtain ⟨attempts, hresolves⟩ := Runner.resolves_runNode hcall
  obtain ⟨new, broken, hadds, hbroken⟩ := hresolves.adds hindexed
  obtain rfl := hbroken hcompletes
  refine ⟨⟨hafter.nodup, hafter⟩, ⟨⟨new, hadds.records, ?_⟩, ?_, attempts, hresolves, ?_⟩, ?_, hidle⟩
  · simpa using hadds.started
  · rw [hstarted]
    exact hafter.nodup
  · intro attempt hattempt
    have hsound := hresolves.sound hindexed attempt hattempt
    exact hsound.indexed.find?_eq_none hsound.unrecorded
  · rw [hidle, hresolving]

namespace Sample

/-- The component `a` leads to `b` on one outcome and to `c` on the other; both lead to `d`. -/
def forked : List Node :=
  [{ id := "a", type := "scripted", parent? := some "w", content := [("outcome", .text "true")]
     outs := [⟨"true", "b"⟩, ⟨"false", "c"⟩] },
   { id := "b", type := "scripted", parent? := some "w", outs := [⟨"success", "d"⟩] },
   { id := "c", type := "scripted", parent? := some "w", outs := [⟨"success", "d"⟩] },
   { id := "d", type := "scripted", parent? := some "w" }]

/-- Runs scripted blocks. -/
def runner : Runner :=
  { registry := Registry.empty.register "scripted" Scripted.blockType
    tree := Tree.empty
    nesting := 0 }

/-- Resolves one of the forked components. -/
def call (i : Fin 4) (scope : Scope) (session : Session) :
    Ending FlowError Resolution × Scope × Session :=
  runner.runNode (forked.get i) forked .empty (scope, session)

end Sample

/-- The second call, for `d`, finds the records that the first one, for `b`, has made. -/
theorem Scope.Arises.runNode_once_forked :
    ∃ first scope session second after later,
      (Sample.call 1 {} {} = (first, scope, session) ∧ first.Completes ∧ scope.Arises ∧
        Sample.call 3 scope session = (second, after, later) ∧ second.Completes) ∧
      after.records.map Record.id = ["a", "b", "d"] ∧ (after.records.map Record.id).Nodup ∧
      (∃ new, after.records = scope.records ++ new ∧
        after.started = scope.started ++ new.map Record.id) ∧
      after.resolving = [] := by
  obtain ⟨⟨first, scope, session⟩, hfirst⟩ : ∃ call, Sample.call 1 {} {} = call := ⟨_, rfl⟩
  obtain ⟨⟨second, after, later⟩, hsecond⟩ : ∃ call, Sample.call 3 scope session = call := ⟨_, rfl⟩
  have hone : (Sample.call 1 {} {}).1.Completes := by decide +kernel
  have htwo : (Sample.call 3 (Sample.call 1 {} {}).2.1 (Sample.call 1 {} {}).2.2).1.Completes := by
    decide +kernel
  have hrecords : (Sample.call 3 (Sample.call 1 {} {}).2.1
      (Sample.call 1 {} {}).2.2).2.1.records.map Record.id = ["a", "b", "d"] := by decide +kernel
  rw [hfirst] at hone htwo hrecords
  rw [hsecond] at htwo hrecords
  have harises := Scope.Arises.empty.call hfirst hone
  obtain ⟨⟨hnodup, _⟩, ⟨hnew, _⟩, _, hidle⟩ := harises.runNode_once hsecond htwo
  exact ⟨first, scope, session, second, after, later, ⟨hfirst, hone, harises, hsecond, htwo⟩,
    hrecords, hnodup, hnew, hidle⟩

end Workflow
