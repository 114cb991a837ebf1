import Workflow.Proofs.Run.Pruned

namespace Workflow

open Relation

variable {nodes : List Node} {known : String → Bool} {records : List Record}

/-- What a component was answered when it was asked for. -/
structure Answer where
  node : Node
  ending : Ending FlowError Resolution

/-- Entering a component and leaving it at once changes nothing. -/
@[simp] theorem Frame.leave_enter (frame : Frame) (id : String) :
    (frame.enter id).leave id = frame := by
  simp [Frame.enter, Frame.leave, Scope.enter, Scope.leave]

namespace Engine

variable {engine : Engine} {branches : Branches} {env : Environment}

/-- A component that is found unreached is not being resolved. -/
theorem Resolves.idle_of_unreached {node : Node} {frame after : Frame} {attempts : List Attempt}
    {ending : Ending FlowError Resolution}
    (h : Resolves engine branches nodes env node frame attempts ending after)
    (hending : ending = .ok .unreached) : node.id ∉ frame.scope.resolving := by
  match h with
  | .unregistered _ => cases hending
  | .recorded _ _ => cases hending
  | .cyclic _ _ _ => cases hending
  | .halted henters _ => exact henters.idle
  | .returned henters _ => exact henters.idle
  | .unreached henters _ _ => exact henters.idle
  | .executed henters _ _ _ => exact henters.idle

/-- Gathering from components that change nothing and follow no edge changes nothing and follows
none. -/
private theorem Gathers.of_missed {needed : List (Node × String)} {result : Json} {fired : Bool}
    {frame after : Frame} {attempts : List Attempt} {ending : Ending FlowError Gathered}
    (h : Gathers engine branches nodes env needed result fired frame attempts ending after)
    (hmissed : ∀ dependency ∈ needed, ∀ attempts ending after,
      Resolves engine branches nodes env dependency.1 frame attempts ending after →
        after = frame ∧ (ending = .ok .unreached ∨ ∃ record, ending = .ok (.reached record) ∧
          record.returned? = none ∧ record.matches dependency.2 = false)) :
    after = frame ∧ ∃ last, ending = .ok (.ready last fired) := by
  induction needed generalizing result attempts with
  | nil =>
    cases h
    exact ⟨rfl, _, rfl⟩
  | cons dependency rest ih =>
    obtain ⟨hfirst, hothers⟩ := List.forall_mem_cons.mp hmissed
    cases h with
    | halted hresolves =>
      obtain ⟨_, hending | ⟨_, hending, _⟩⟩ := hfirst _ _ _ hresolves
      · exact absurd hending (Halt.ending_ne_ok _ _)
      · exact absurd hending (Halt.ending_ne_ok _ _)
    | returned hresolves =>
      obtain ⟨_, hending | ⟨_, hending, _⟩⟩ := hfirst _ _ _ hresolves
      · cases hending
      · cases hending
    | unreached hresolves hrest =>
      obtain ⟨rfl, _⟩ := hfirst _ _ _ hresolves
      exact ih hrest hothers
    | ended hresolves hvalue =>
      obtain ⟨_, hending | ⟨_, hending, hnone, _⟩⟩ := hfirst _ _ _ hresolves
      · cases hending
      · cases hending
        rw [hvalue] at hnone
        cases hnone
    | reached hresolves _ hrest =>
      obtain ⟨rfl, hending | ⟨_, hending, _, hunmatched⟩⟩ := hfirst _ _ _ hresolves
      · cases hending
      · cases hending
        rw [hunmatched, Bool.or_false] at hrest
        exact ih hrest hothers

/-- A component that has passed answers with its record at once. -/
private theorem Resolves.of_passed {node : Node} {frame after : Frame} {attempts : List Attempt}
    {ending : Ending FlowError Resolution} {label : String}
    (h : Resolves engine branches nodes env node frame attempts ending after)
    (hpassed : Passed frame.scope.records node)
    (hknown : engine.registry.contains node.type = true) (hindexed : frame.scope.Indexed)
    (hmissed : ¬ Followed frame.scope.records (node, label)) :
    after = frame ∧ ∃ record, ending = .ok (.reached record) ∧ record.returned? = none ∧
      record.matches label = false := by
  obtain ⟨record, hrecord, hid, hvalue⟩ := hpassed
  have hget : frame.scope.get? node.id = some record :=
    hindexed.get?_eq_some_iff.mpr ⟨hrecord, hid⟩
  have hrecorded : ¬ engine.Enters node frame := by
    intro henters
    rw [henters.unrecorded] at hget
    cases hget
  cases h with
  | unregistered hunknown =>
    rw [hknown] at hunknown
    cases hunknown
  | recorded _ hfound =>
    rw [hget] at hfound
    cases hfound
    refine ⟨rfl, record, rfl, hvalue, ?_⟩
    rwa [followed_iff_matches hindexed.nodup hrecord hid, Bool.not_eq_true] at hmissed
  | cyclic _ hnew _ =>
    rw [hget] at hnew
    cases hnew
  | halted henters _ => exact absurd henters hrecorded
  | returned henters _ => exact absurd henters hrecorded
  | unreached henters _ _ => exact absurd henters hrecorded
  | executed henters _ _ _ => exact absurd henters hrecorded

/-- A component that is entered is unreached if gathering for it changes nothing and follows no edge. -/
private theorem Resolves.of_missed {node : Node} {frame after : Frame} {attempts : List Attempt}
    {ending : Ending FlowError Resolution}
    (h : Resolves engine branches nodes env node frame attempts ending after)
    (henters : engine.Enters node frame) (hneeded : dependencies node nodes ≠ [])
    (hgathers : ∀ {attempts gathered between},
      Gathers engine branches nodes env (dependencies node nodes) .null false
          (frame.enter node.id) attempts gathered between →
        between = frame.enter node.id ∧ ∃ last, gathered = .ok (.ready last false)) :
    after = frame ∧ ending = .ok .unreached := by
  cases h with
  | unregistered hunknown =>
    rw [henters.registered] at hunknown
    cases hunknown
  | recorded _ hrecord =>
    rw [henters.unrecorded] at hrecord
    cases hrecord
  | cyclic _ _ hresolving => exact absurd hresolving henters.idle
  | halted _ hhalted =>
    obtain ⟨_, last, hready⟩ := hgathers hhalted
    exact absurd hready (Halt.ending_ne_ok _ _)
  | returned _ hreturned =>
    obtain ⟨_, last, hready⟩ := hgathers hreturned
    cases hready
  | unreached _ hunreached _ =>
    obtain ⟨rfl, _⟩ := hgathers hunreached
    exact ⟨Frame.leave_enter frame node.id, rfl⟩
  | executed _ hgathered hreached _ =>
    obtain ⟨_, last, hready⟩ := hgathers hgathered
    cases hready
    obtain hfree | hfired := hreached
    · exact absurd hfree hneeded
    · cases hfired

end Engine

/-- A pruned component is found unreached again, and that changes nothing. It is not being resolved
already: it would need itself then. -/
theorem Pruned.resolves {engine : Engine} {branches : Branches} {env : Environment} {node : Node}
    (hpruned : Pruned nodes known records node) (hids : Identified nodes)
    (hknown : ∀ type, engine.registry.contains type = known type) (hnode : node ∈ nodes) :
    ∀ frame : Frame, frame.scope.records = records → frame.scope.Timely nodes known →
      frame.scope.Needing nodes node →
        ∀ attempts ending after,
          engine.Resolves branches nodes env node frame attempts ending after →
            after = frame ∧ ending = .ok .unreached := by
  induction hpruned with
  | @intro node hregistered hnew hneeded hmissed hpruned ih =>
    intro frame hrecords htimely hneeding attempts ending after h
    subst hrecords
    have hsafe := (Pruned.intro hregistered hnew hneeded hmissed hpruned).not_doomed htimely.spared
    have hidle := hneeding.idle hids hnode hsafe
    have hgathers : ∀ {attempts gathered between},
        engine.Gathers branches nodes env (dependencies node nodes) .null false
          (frame.enter node.id) attempts gathered between →
        between = frame.enter node.id ∧ ∃ last, gathered = .ok (.ready last false) := by
      intro attempts gathered between hgathers
      refine hgathers.of_missed fun dependency hmem attempts ending after hresolves => ?_
      have hproducer := mem_of_mem_dependencies hmem
      by_cases hpassed : Passed frame.scope.records dependency.1
      · have hproducerKnown : engine.registry.contains dependency.1.type = true :=
          (hknown _).trans (htimely.registered dependency.1 hproducer hpassed.recorded)
        obtain ⟨hafter, hreached⟩ := hresolves.of_passed hpassed hproducerKnown
          (htimely.indexed.enter node.id) (hmissed dependency hmem)
        exact ⟨hafter, .inr hreached⟩
      · obtain ⟨hafter, hunreached⟩ := ih dependency hmem hpassed hproducer (frame.enter node.id) rfl
          (htimely.enter node.id) (hneeding.enter hnode hmem) _ _ _ hresolves
        exact ⟨hafter, .inl hunreached⟩
    have hregistered : engine.registry.contains node.type = true := (hknown _).trans hregistered
    have hunrecorded := htimely.indexed.get?_eq_none_iff_not_recorded.mpr hnew
    exact h.of_missed ⟨hregistered, hunrecorded, hidle⟩ hneeded hgathers

namespace Engine

variable {engine : Engine} {branches : Branches} {env : Environment}

instance Enters.decidable (engine : Engine) (node : Node) (frame : Frame) :
    Decidable (engine.Enters node frame) :=
  decidable_of_iff (engine.registry.contains node.type = true ∧
      (frame.scope.get? node.id).isNone = true ∧ node.id ∉ frame.scope.resolving)
    ⟨fun ⟨hregistered, hnew, hidle⟩ => ⟨hregistered, Option.isNone_iff_eq_none.mp hnew, hidle⟩,
      fun ⟨hregistered, hnew, hidle⟩ => ⟨hregistered, Option.isNone_iff_eq_none.mpr hnew, hidle⟩⟩

/-- The answers to the requests that gathering makes. It makes no more after one that halts or comes
with a return value. -/
def gatherAnswers (resolve : Node → Step Frame FlowError Resolution)
    (answers : Node → Frame → List Answer) : List (Node × String) → Frame → List Answer
  | [], _ => []
  | (producer, _) :: rest, frame =>
    answers producer frame ++
      match resolve producer frame with
      | (.ok .unreached, after) => gatherAnswers resolve answers rest after
      | (.ok (.reached record), after) =>
        if record.returned?.isNone then gatherAnswers resolve answers rest after else []
      | _ => []

/-- The answers that are given while a component is resolved, at any depth and in their order: those
to the requests made on its behalf if it is entered, and its own. -/
def answers (engine : Engine) (branches : Branches) (nodes : List Node) (env : Environment) :
    (depth : Nat) → Node → Frame → List Answer
  | 0, node, _ => [⟨node, .tooDeep⟩]
  | depth + 1, node, frame =>
    (if engine.Enters node frame then
      gatherAnswers (engine.resolve branches nodes env depth)
        (answers engine branches nodes env depth) (dependencies node nodes) (frame.enter node.id)
    else []) ++ [⟨node, (engine.resolve branches nodes env (depth + 1) node frame).1⟩]

/-- The answers that are given in the course of a call. -/
def callAnswers (engine : Engine) (branches : Branches) (nodes : List Node) (env : Environment)
    (node : Node) (frame : Frame) : List Answer :=
  engine.answers branches nodes env (nodes.length + 2) node frame

end Engine

/-- What the answers given between two moments of a scope tell. -/
structure Told (nodes : List Node) (known : String → Bool) (before after : Scope)
    (answers : List Answer) : Prop where
  timely : after.Timely nodes known
  resolving : after.resolving = before.resolving
  grows : before.records <+: after.records
  /-- A component that is being resolved is recorded by nothing else. -/
  waits : ∀ id ∈ before.resolving, before.get? id = none → after.get? id = none
  mem : ∀ answer ∈ answers, answer.node ∈ nodes
  pruned : ∀ answer ∈ answers, answer.ending = .ok .unreached →
    Pruned nodes known after.records answer.node
  idle : ∀ answer ∈ answers, answer.ending = .ok .unreached → answer.node.id ∉ before.resolving
  stays : ∀ answer ∈ answers, Pruned nodes known before.records answer.node →
    answer.ending = .ok .unreached
  agree : answers.Pairwise fun answer later =>
    answer.ending = .ok .unreached → later.node = answer.node → later.ending = .ok .unreached

namespace Told

variable {first second third : Scope} {answers more : List Answer}

theorem refl {scope : Scope} (htimely : scope.Timely nodes known) : Told nodes known scope scope [] :=
  ⟨htimely, rfl, List.prefix_refl _, fun _ _ => id, List.forall_mem_nil _, List.forall_mem_nil _,
    List.forall_mem_nil _, List.forall_mem_nil _, .nil⟩

/-- The answers of two stretches of a history are told together. -/
theorem trans (hids : Identified nodes) (hfirst : Told nodes known first second answers)
    (hsecond : Told nodes known second third more) :
    Told nodes known first third (answers ++ more) := by
  refine ⟨hsecond.timely, hsecond.resolving.trans hfirst.resolving,
    hfirst.grows.trans hsecond.grows, ?_, List.forall_mem_append.mpr ⟨hfirst.mem, hsecond.mem⟩,
    List.forall_mem_append.mpr ⟨?_, hsecond.pruned⟩,
    List.forall_mem_append.mpr ⟨hfirst.idle, ?_⟩, List.forall_mem_append.mpr ⟨hfirst.stays, ?_⟩,
    List.pairwise_append.mpr ⟨hfirst.agree, hsecond.agree, ?_⟩⟩
  · intro id hid hnew
    refine hsecond.waits id ?_ (hfirst.waits id hid hnew)
    rwa [hfirst.resolving]
  · intro answer hanswer hunreached
    exact hsecond.timely.pruned hids hsecond.grows (hfirst.mem answer hanswer)
      (hfirst.pruned answer hanswer hunreached)
  · rw [← hfirst.resolving]
    exact hsecond.idle
  · intro answer hanswer hpruned
    exact hsecond.stays answer hanswer
      (hfirst.timely.pruned hids hfirst.grows (hsecond.mem answer hanswer) hpruned)
  · intro answer hanswer later hlater hunreached hsame
    apply hsecond.stays later hlater
    rw [hsame]
    exact hfirst.pruned answer hanswer hunreached

/-- The answer of a component comes after those to the requests made on its behalf, none of which has
found the component itself unreached. -/
theorem close {engine : Engine} {branches : Branches} {env : Environment} {node : Node}
    {frame after : Frame} {attempts : List Engine.Attempt}
    {ending : Ending FlowError Resolution} {between : Scope} (hids : Identified nodes)
    (hknown : ∀ type, engine.registry.contains type = known type)
    (htimely : frame.scope.Timely nodes known) (hnode : node ∈ nodes)
    (hneeding : frame.scope.Needing nodes node)
    (hresolves : engine.Resolves branches nodes env node frame attempts ending after)
    (htold : Told nodes known (frame.enter node.id).scope between answers)
    (hgrows : between.records <+: after.scope.records) :
    Told nodes known frame.scope after.scope (answers ++ [⟨node, ending⟩]) := by
  obtain ⟨hafter, hpruned⟩ := hresolves.timely hids hknown htimely hnode
  obtain ⟨new, broken, hadds, _⟩ := hresolves.adds htimely.indexed
  have hidle : ∀ answer ∈ answers, answer.ending = .ok .unreached →
      answer.node.id ≠ node.id ∧ answer.node.id ∉ frame.scope.resolving := by
    intro answer hanswer hunreached
    exact not_or.mp fun h => htold.idle answer hanswer hunreached (List.mem_cons.mpr h)
  refine ⟨hafter, hresolves.resolving_eq, hresolves.records_prefix htimely.indexed,
    fun id hid hnew => hadds.get?_eq_none htimely.indexed hnew hid,
    List.forall_mem_append.mpr ⟨htold.mem, List.forall_mem_singleton.mpr hnode⟩,
    List.forall_mem_append.mpr ⟨?_, List.forall_mem_singleton.mpr hpruned⟩,
    List.forall_mem_append.mpr ⟨fun answer hanswer hunreached =>
      (hidle answer hanswer hunreached).2, List.forall_mem_singleton.mpr ?_⟩,
    List.forall_mem_append.mpr ⟨htold.stays, List.forall_mem_singleton.mpr ?_⟩,
    List.pairwise_append.mpr ⟨htold.agree, List.pairwise_singleton _ _, ?_⟩⟩
  · intro answer hanswer hunreached
    exact hafter.pruned hids hgrows (htold.mem answer hanswer)
      (htold.pruned answer hanswer hunreached)
  · intro hunreached
    exact hresolves.idle_of_unreached hunreached
  · intro hpruned
    exact (hpruned.resolves hids hknown hnode frame rfl htimely hneeding _ _ _ hresolves).2
  · intro answer hanswer later hlater hunreached hsame
    obtain rfl := List.mem_singleton.mp hlater
    exact absurd (congrArg Node.id hsame).symm (hidle answer hanswer hunreached).1

end Told

namespace Engine

variable {engine : Engine} {branches : Branches} {env : Environment}

/-- The answers that gathering collects are told if those of the producers are, in every frame in
which the same components are being resolved. -/
private theorem told_gather {resolve : Node → Step Frame FlowError Resolution}
    {answers : Node → Frame → List Answer} (resolving : List String) (hids : Identified nodes)
    {needed : List (Node × String)}
    (htold : ∀ dependency ∈ needed, ∀ frame : Frame, frame.scope.resolving = resolving →
      frame.scope.Timely nodes known →
        Told nodes known frame.scope (resolve dependency.1 frame).2.scope
          (answers dependency.1 frame)) :
    ∀ (result : Json) (fired : Bool) (frame : Frame), frame.scope.resolving = resolving →
      frame.scope.Timely nodes known →
        Told nodes known frame.scope (gather resolve needed result fired frame).2.scope
          (gatherAnswers resolve answers needed frame) := by
  induction needed with
  | nil =>
    intro _ _ frame _ htimely
    exact .refl htimely
  | cons dependency rest ih =>
    obtain ⟨producer, label⟩ := dependency
    obtain ⟨hproducer, hrest⟩ := List.forall_mem_cons.mp htold
    intro result fired frame hframe htimely
    have hfirst := hproducer frame hframe htimely
    obtain ⟨⟨ending, between⟩, hrun⟩ : ∃ run, resolve producer frame = run := ⟨_, rfl⟩
    dsimp only at hfirst
    rw [hrun] at hfirst
    have hbetween := hfirst.resolving.trans hframe
    rw [gather, gatherAnswers, hrun]
    obtain ⟨resolution, rfl⟩ | ⟨halt, rfl⟩ := ending.ok_or_halt
    · rw [Step.bind_ok hrun]
      cases resolution with
      | unreached => exact hfirst.trans hids (ih hrest _ _ between hbetween hfirst.timely)
      | returned value => exact hfirst.trans hids (.refl hfirst.timely)
      | reached record =>
        dsimp only
        cases record.returned? with
        | some value => exact hfirst.trans hids (.refl hfirst.timely)
        | none => exact hfirst.trans hids (ih hrest _ _ between hbetween hfirst.timely)
    · rw [Step.bind_halt hrun]
      cases halt <;> exact hfirst.trans hids (.refl hfirst.timely)

private theorem resolve_of_enters {node : Node} {frame : Frame} (henters : engine.Enters node frame)
    (depth : Nat) :
    engine.resolve branches nodes env (depth + 1) node frame =
      (((gather (engine.resolve branches nodes env depth) (dependencies node nodes) .null false >>=
          engine.executeReached branches env node (dependencies node nodes).isEmpty)
        (frame.enter node.id)).1,
      ((gather (engine.resolve branches nodes env depth) (dependencies node nodes) .null false >>=
          engine.executeReached branches env node (dependencies node nodes).isEmpty)
        (frame.enter node.id)).2.leave node.id) := by
  simp only [resolve, henters.registered, henters.unrecorded, if_neg henters.idle, Bool.not_true,
    Bool.false_eq_true, if_false]
  rfl

/-- Executing a component that is reached, or not, only appends records. -/
private theorem executeReached_grows {node : Node} (independent : Bool) (gathered : Gathered)
    {frame : Frame} (hindexed : frame.scope.Indexed) (hnew : frame.scope.get? node.id = none) :
    frame.scope.records <+:
      (engine.executeReached branches env node independent gathered frame).2.scope.records := by
  unfold executeReached
  cases gathered with
  | returned value => exact List.prefix_refl _
  | ready result fired =>
    dsimp only
    split
    · obtain ⟨new, _, hrecords, _⟩ := (executes_execute _ _ _ _ _ rfl).adds hindexed hnew
      exact ⟨new, hrecords.symm⟩
    · exact List.prefix_refl _

/-- The records that there are when gathering for a component ends are kept when it is left. -/
private theorem gather_prefix_resolve {node : Node} {frame : Frame}
    (henters : engine.Enters node frame) (depth : Nat) :
    let gathered := gather (engine.resolve branches nodes env depth) (dependencies node nodes) .null
      false (frame.enter node.id)
    gathered.2.scope.Indexed → gathered.2.scope.get? node.id = none →
      gathered.2.scope.records <+:
        (engine.resolve branches nodes env (depth + 1) node frame).2.scope.records := by
  intro gathered hindexed hnew
  rw [resolve_of_enters henters]
  obtain ⟨⟨ending, between⟩, hgather⟩ : ∃ run, gathered = run := ⟨_, rfl⟩
  rw [hgather] at hindexed hnew ⊢
  obtain ⟨gathered, rfl⟩ | ⟨halt, rfl⟩ := ending.ok_or_halt
  · rw [Step.bind_ok hgather]
    exact executeReached_grows _ gathered hindexed hnew
  · rw [Step.bind_halt hgather]
    exact List.prefix_refl _

/-- The answers that are given while a component is resolved are told, if the allowed depth exceeds
the number of components that may still be entered. -/
theorem told_answers (hids : Identified nodes)
    (hknown : ∀ type, engine.registry.contains type = known type) (depth : Nat) :
    ∀ node ∈ nodes, ∀ frame : Frame, (enterable nodes node frame.scope.resolving).card < depth →
      frame.scope.Timely nodes known → frame.scope.Needing nodes node →
        Told nodes known frame.scope (engine.resolve branches nodes env depth node frame).2.scope
          (engine.answers branches nodes env depth node frame) := by
  induction depth with
  | zero =>
    intro node _ frame hroom
    omega
  | succ depth ih =>
    intro node hnode frame hroom htimely hneeding
    obtain ⟨attempts, hresolves⟩ := resolves_resolve (depth + 1) node frame hroom _ _ rfl
    rw [answers]
    split
    · next henters =>
      have htold : Told nodes known (frame.enter node.id).scope
          (gather (engine.resolve branches nodes env depth) (dependencies node nodes) .null false
            (frame.enter node.id)).2.scope
          (gatherAnswers (engine.resolve branches nodes env depth)
            (engine.answers branches nodes env depth) (dependencies node nodes)
            (frame.enter node.id)) := by
        apply told_gather (node.id :: frame.scope.resolving) hids ?_ _ _ _ rfl
          (htimely.enter node.id)
        intro dependency hmem between hbetween hbetweenTimely
        have hproducer := mem_of_mem_dependencies hmem
        refine ih dependency.1 hproducer between ?_ hbetweenTimely ?_
        · rw [hbetween]
          -- The component itself is being resolved now and cannot be entered once more.
          have hless := Finset.card_lt_card (enterable_ssubset hproducer henters.idle)
          omega
        · rw [Scope.Needing, hbetween]
          exact hneeding.enter hnode hmem
      have hnew := htold.waits node.id List.mem_cons_self henters.unrecorded
      exact .close hids hknown htimely hnode hneeding hresolves htold
        (gather_prefix_resolve henters depth htold.timely.indexed hnew)
    · exact .close hids hknown htimely hnode hneeding hresolves (.refl (htimely.enter node.id))
        (hresolves.records_prefix htimely.indexed)

end Engine

/-- Calls that resolve components of one run, one after the other, in a scope that starts empty, with
the answers given in the course of them. Environments, blocks, nested runs and what lives on outside
the scope may change from call to call; which block types are known does not. -/
inductive Scope.History (nodes : List Node) (known : String → Bool) : List Answer → Scope → Prop where
  | empty : History nodes known [] {}
  | call {answers : List Answer} {frame : Frame} {node : Node}
      (hhistory : History nodes known answers frame.scope) (engine : Engine) (branches : Branches)
      (env : Environment) (hknown : ∀ type, engine.registry.contains type = known type)
      (hnode : node ∈ nodes) :
      History nodes known (answers ++ engine.callAnswers branches nodes env node frame)
        (engine.runNode branches nodes env node frame).2.scope

namespace Scope.History

variable {answers : List Answer} {scope : Scope}

/-- The answers of a history tell that what was found unreached is pruned: it is never recorded
afterwards, and found unreached whenever it is asked for again. -/
theorem told (h : History nodes known answers scope) (hids : Identified nodes) :
    Told nodes known {} scope answers := by
  induction h with
  | empty => exact .refl .empty
  | @call answers frame node _ engine branches env hknown hnode ih =>
    have hneeding : frame.scope.Needing nodes node := by
      rw [Scope.Needing, ih.resolving]
      exact List.forall_mem_nil _
    exact ih.trans hids (Engine.told_answers hids hknown (nodes.length + 2) node hnode frame
      Engine.card_enterable_lt ih.timely hneeding)

/-- Running components one after the other is a sequence of calls. -/
theorem exists_runEach {engine : Engine} {branches : Branches} {env : Environment}
    (hknown : ∀ type, engine.registry.contains type = known type) {pulled : List Node}
    (hpulled : ∀ node ∈ pulled, node ∈ nodes) {frame : Frame}
    (h : History nodes known answers frame.scope) :
    ∃ more, History nodes known (answers ++ more)
      (engine.runEach branches nodes env pulled frame).2.scope := by
  induction pulled generalizing frame answers with
  | nil => exact ⟨[], (List.append_nil answers).symm ▸ h⟩
  | cons node rest ih =>
    obtain ⟨hnode, hrest⟩ := List.forall_mem_cons.mp hpulled
    have hcall := h.call engine branches env hknown hnode
    obtain ⟨⟨ending, between⟩, hrun⟩ : ∃ run, engine.runNode branches nodes env node frame = run :=
      ⟨_, rfl⟩
    rw [hrun] at hcall
    rw [Engine.runEach]
    obtain ⟨resolution, rfl⟩ | ⟨halt, rfl⟩ := ending.ok_or_halt
    · rw [Step.bind_ok hrun]
      have hmore : ∃ more, History nodes known (answers ++ more)
          (engine.runEach branches nodes env rest between).2.scope := by
        obtain ⟨more, hmore⟩ := ih hrest hcall
        exact ⟨_, List.append_assoc _ _ more ▸ hmore⟩
      cases resolution with
      | unreached => exact hmore
      | returned value => exact ⟨_, hcall⟩
      | reached record =>
        dsimp only
        cases record.returned? with
        | some value => exact ⟨_, hcall⟩
        | none => exact hmore
    · rw [Step.bind_halt hrun]
      exact ⟨_, hcall⟩

/-- Whatever calls are made on a scope, and however they end, a component is recorded after each
recorded one that it depends on; and a component that was found unreached once, at any depth of a
call, is not recorded and is found unreached whenever it is asked for later. A full run is such a
sequence of calls. -/
theorem order_and_pruning (hids : Identified nodes) (h : History nodes known answers scope) :
    (∀ target ∈ nodes, ∀ dependency ∈ dependencies target nodes, ∀ (i j : Nat) (first second : Record),
      scope.records[i]? = some first → scope.records[j]? = some second →
        first.id = dependency.1.id → second.id = target.id → i < j) ∧
    (∀ (earlier : List Answer) (answer : Answer) (later : List Answer),
      answers = earlier ++ answer :: later →
      answer.ending = .ok .unreached →
        (∀ record ∈ scope.records, record.id ≠ answer.node.id) ∧
        ∀ again ∈ later, again.node.id = answer.node.id → again.ending = .ok .unreached) ∧
    ∀ (engine : Engine) (branches : Branches) (env : Environment) (world : World),
      (∀ type, engine.registry.contains type = known type) →
        ∃ answers, History nodes known answers
          (engine.runNodes branches nodes env { world }).2.scope := by
  have htold := h.told hids
  refine ⟨?_, ?_, ?_⟩
  · intro target htarget dependency hmem i j first second hfirst hsecond hfirstId hsecondId
    exact htold.timely.lt_of_dependency hids htarget hmem hfirst hsecond hfirstId hsecondId
  · rintro earlier answer later rfl hunreached
    have hanswer : answer ∈ earlier ++ answer :: later :=
      List.mem_append_right _ List.mem_cons_self
    refine ⟨?_, ?_⟩
    · intro record hrecord hid
      exact (htold.pruned answer hanswer hunreached).unrecorded ⟨record, hrecord, hid⟩
    · intro again hagain hid
      have hlater := (List.pairwise_cons.mp (List.pairwise_append.mp htold.agree).2.1).1 again hagain
      have hnode := htold.mem again
        (List.mem_append_right _ (List.mem_cons_of_mem _ hagain))
      exact hlater hunreached (hids again.node hnode answer.node (htold.mem answer hanswer) hid)
  · intro engine branches env world hknown
    have hrun : ∃ more, History nodes known ([] ++ more)
        (engine.runNodes branches nodes env { world }).2.scope :=
      exists_runEach hknown (fun _ => mem_of_mem_terminals) .empty
    exact hrun

end Scope.History

/-- A call for one of the forked components. -/
def Sample.ask (i : Fin 4) (frame : Frame) : List Answer × Frame :=
  (Sample.runner.callAnswers Sample.runner.nested Sample.forked .empty (Sample.forked.get i) frame,
    (Sample.runner.toEngine.runNode Sample.runner.nested Sample.forked .empty (Sample.forked.get i)
      frame).2)

/-- The first call finds `c` unreached; the second, for `d`, asks for it again. -/
theorem Scope.History.order_and_pruning_forked :
    ∃ (earlier : List Answer) (answer : Answer) (later : List Answer) (scope : Scope),
      Identified Sample.forked ∧
      History Sample.forked Sample.runner.registry.contains (earlier ++ answer :: later) scope ∧
      answer.ending = .ok .unreached ∧
      answer.node.id = "c" ∧ later.map (·.node.id) = ["a", "b", "a", "c", "d"] ∧
      scope.records.map Record.id = ["a", "b", "d"] ∧
      (∀ record ∈ scope.records, record.id ≠ answer.node.id) ∧
      ∀ again ∈ later, again.node.id = answer.node.id → again.ending = .ok .unreached := by
  have hids : Identified Sample.forked := identified_of_nodup (by decide)
  obtain ⟨⟨first, between⟩, hfirst⟩ : ∃ call, Sample.ask 2 {} = call := ⟨_, rfl⟩
  obtain ⟨⟨second, after⟩, hsecond⟩ : ∃ call, Sample.ask 3 between = call := ⟨_, rfl⟩
  have hfirstIds : (Sample.ask 2 {}).1.map (·.node.id) = ["a", "c"] := by decide +kernel
  have hunreached : (Sample.ask 2 {}).1[1]?.map (·.ending) = some (.ok .unreached) := by cbv
  have hsecondIds : (Sample.ask 3 (Sample.ask 2 {}).2).1.map (·.node.id) =
      ["a", "b", "a", "c", "d"] := by decide +kernel
  have hrecords : (Sample.ask 3 (Sample.ask 2 {}).2).2.scope.records.map Record.id =
      ["a", "b", "d"] := by decide +kernel
  rw [hfirst] at hfirstIds hunreached hsecondIds hrecords
  rw [hsecond] at hsecondIds hrecords
  obtain ⟨earlier, answer, rfl⟩ : ∃ earlier answer, first = [earlier, answer] :=
    List.length_eq_two.mp (by simpa using congrArg List.length hfirstIds)
  have hanswer : answer.ending = .ok .unreached := by simpa using hunreached
  have hid : answer.node.id = "c" := by
    have hboth : earlier.node.id = "a" ∧ answer.node.id = "c" := by simpa using hfirstIds
    exact hboth.2
  have hone : History Sample.forked Sample.runner.registry.contains [earlier, answer]
      between.scope := by
    have hempty : History Sample.forked Sample.runner.registry.contains [] ({} : Frame).scope :=
      .empty
    have hcall := hempty.call Sample.runner.toEngine Sample.runner.nested .empty
      (fun _ => rfl) (Sample.forked.get_mem (2 : Fin 4))
    obtain ⟨hanswers, hframe⟩ := Prod.mk.inj hfirst
    rwa [List.nil_append, hanswers, hframe] at hcall
  have htwo : History Sample.forked Sample.runner.registry.contains
      ([earlier] ++ answer :: second) after.scope := by
    have hcall := hone.call Sample.runner.toEngine Sample.runner.nested .empty
      (fun _ => rfl) (Sample.forked.get_mem (3 : Fin 4))
    obtain ⟨hanswers, hframe⟩ := Prod.mk.inj hsecond
    rwa [hanswers, hframe] at hcall
  obtain ⟨_, hpruning, _⟩ := order_and_pruning hids htwo
  obtain ⟨hunrecorded, hagain⟩ := hpruning [earlier] answer second rfl hanswer
  exact ⟨[earlier], answer, second, after.scope, hids, htwo, hanswer, hid, hsecondIds, hrecords,
    hunrecorded, hagain⟩

end Workflow
