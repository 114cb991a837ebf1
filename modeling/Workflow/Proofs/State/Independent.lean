import Mathlib.Data.List.Perm.Basic
import Workflow.Proofs.Json.Unordered
import Workflow.Proofs.Run.Branch
import Workflow.Proofs.Run.Written
import Workflow.Proofs.State

namespace Workflow

/-- Neither of the paths lies inside the other. -/
def State.Apart (path other : List String) : Prop := ¬ path <+: other ∧ ¬ other <+: path

/-- No path of the one group of writes lies inside a path of the other, or around it. -/
def State.AllApart (writes more : List (List String × Json)) : Prop :=
  ∀ written ∈ writes, ∀ other ∈ more, Apart written.1 other.1

theorem State.Apart.symm {path other : List String} (h : Apart path other) : Apart other path :=
  And.symm h

instance (path other : List String) : Decidable (State.Apart path other) :=
  inferInstanceAs (Decidable (_ ∧ _))

instance : Std.Symm State.AllApart where
  symm _ _ h other hother written hwritten := (h written hwritten other hother).symm

/-- What two paths through one name share besides it does not make them meet. -/
theorem State.Apart.of_cons {name : String} {rest more : List String}
    (h : Apart (name :: rest) (name :: more)) : Apart rest more :=
  ⟨fun hprefix => h.1 (List.cons_prefix_cons.mpr ⟨rfl, hprefix⟩),
    fun hprefix => h.2 (List.cons_prefix_cons.mpr ⟨rfl, hprefix⟩)⟩

open State (Apart AllApart)

namespace Json.Members

/-- The members of the object below a name. -/
def below (members : Members) (name : String) : Members :=
  match members name with
  | some (.object inner) => inner
  | _ => fun _ => none

/-- Stores a value at a path. -/
def write : Members → List String → Unordered → Members
  | members, [], _ => members
  | members, [name], value => Function.update members name (some value)
  | members, name :: next :: rest, value =>
    Function.update members name (some (.object (write (below members name) (next :: rest) value)))

/-- Makes writes one after the other. -/
def writeAll (members : Members) (writes : List (List String × Json)) : Members :=
  writes.foldl (fun members written => members.write written.1 written.2.unordered) members

variable {members : Members} {path other : List String} {value stored : Unordered}

theorem below_update_self (name : String) (inner : Members) :
    below (Function.update members name (some (.object inner))) name = inner := by
  rw [below, Function.update_self]

theorem below_update_of_ne {name first : String} (h : first ≠ name) (found : Option Unordered) :
    below (Function.update members name found) first = below members first := by
  rw [below, below, Function.update_of_ne h]

/-- A write changes what one name leads to, and finds what lies below that name. -/
theorem exists_update_of_write (name : String) (rest : List String) (value : Unordered) :
    ∃ change : Members → Unordered, ∀ members : Members,
      members.write (name :: rest) value =
        Function.update members name (some (change (below members name))) := by
  cases rest with
  | nil => exact ⟨fun _ => value, fun _ => rfl⟩
  | cons next rest => exact ⟨fun inner => .object (inner.write (next :: rest) value), fun _ => rfl⟩

/-- Writes apart from each other come to the same in either order. -/
theorem write_comm (h : Apart path other) :
    (members.write path value).write other stored =
      (members.write other stored).write path value := by
  induction path generalizing members other with
  | nil => exact absurd List.nil_prefix h.1
  | cons name rest ih =>
    obtain _ | ⟨first, more⟩ := other
    · exact absurd List.nil_prefix h.2
    by_cases hname : first = name
    · -- Both paths go through `name`, so they part in the object below it.
      subst hname
      obtain _ | ⟨next, rest⟩ := rest
      · exact absurd (List.cons_prefix_cons.mpr ⟨rfl, List.nil_prefix⟩) h.1
      obtain _ | ⟨second, more⟩ := more
      · exact absurd (List.cons_prefix_cons.mpr ⟨rfl, List.nil_prefix⟩) h.2
      simp only [write, below_update_self, Function.update_idem, ih h.of_cons]
    · obtain ⟨change, hchange⟩ := exists_update_of_write name rest value
      obtain ⟨later, hlater⟩ := exists_update_of_write first more stored
      rw [hchange, hlater, hlater, hchange, below_update_of_ne hname,
        below_update_of_ne (Ne.symm hname), Function.update_comm hname]

/-- A write comes to the same before and after writes that are apart from it. -/
theorem writeAll_write_comm {writes : List (List String × Json)}
    (h : ∀ written ∈ writes, Apart path written.1) :
    (members.write path value).writeAll writes = (members.writeAll writes).write path value := by
  induction writes generalizing members with
  | nil => rfl
  | cons written rest ih =>
    obtain ⟨hfirst, hrest⟩ := List.forall_mem_cons.mp h
    exact (congrArg (writeAll · rest) (write_comm hfirst)).trans (ih hrest)

/-- Two groups of writes apart from each other come to the same in either order. -/
theorem writeAll_comm {writes others : List (List String × Json)} (h : AllApart writes others) :
    (members.writeAll writes).writeAll others = (members.writeAll others).writeAll writes := by
  induction writes generalizing members with
  | nil => rfl
  | cons written rest ih =>
    obtain ⟨hfirst, hrest⟩ := List.forall_mem_cons.mp h
    exact (ih hrest).trans (congrArg (writeAll · rest) (writeAll_write_comm hfirst))

/-- Making the writes of all groups is making one group of writes after the other. -/
theorem writeAll_flatten (groups : List (List (List String × Json))) :
    members.writeAll groups.flatten = groups.foldl writeAll members := List.foldl_flatten

/-- Groups of writes apart from each other come to the same in any order. -/
theorem writeAll_flatten_of_perm {groups others : List (List (List String × Json))}
    (hperm : groups.Perm others) (hapart : groups.Pairwise AllApart) :
    members.writeAll groups.flatten = members.writeAll others.flatten := by
  rw [writeAll_flatten, writeAll_flatten]
  refine hperm.foldl_eq' (fun group hgroup more hmore members => ?_) members
  by_cases hsame : group = more
  · rw [hsame]
  · exact writeAll_comm (hapart.forall hgroup hmore hsame)

end Json.Members

namespace State

open Json (Alike Regular members)

/-- Forgetting the order of members commutes with going below a name. -/
theorem members_below (state : State) (name : String) :
    members (state.below name) = Json.Members.below (members state) name := by
  rw [below, Json.Members.below, Json.members_eq_map_find?]
  cases Bindings.find? state name with
  | none => rfl
  | some value => cases value <;> rfl

/-- A write does to the members of a state what it does to them without their order. -/
theorem members_write (state : State) (path : List String) (value : Json) :
    members (state.write path value) = (members state).write path value.unordered := by
  induction path generalizing state with
  | nil => rfl
  | cons name rest ih =>
    cases rest with
    | nil => exact Json.members_insert state name value
    | cons next rest =>
      rw [write_cons, Json.members_insert, Json.unordered, ih, members_below]
      rfl

theorem members_writeAll (state : State) (writes : List (List String × Json)) :
    members (state.writeAll writes) = (members state).writeAll writes := by
  induction writes generalizing state with
  | nil => rfl
  | cons written rest ih =>
    have hrest := ih (state.write written.1 written.2)
    rw [members_write] at hrest
    exact hrest

/-- Groups of writes apart from each other leave the same state in any order. -/
theorem alike_writeAll_of_perm (state : State) {groups others : List (List (List String × Json))}
    (hperm : groups.Perm others) (hapart : groups.Pairwise AllApart) :
    Alike (.object (state.writeAll groups.flatten)) (.object (state.writeAll others.flatten)) := by
  rw [Alike, Json.unordered, Json.unordered, members_writeAll, members_writeAll,
    Json.Members.writeAll_flatten_of_perm hperm hapart]

/-- The object below a name repeats no member if the state does not. -/
theorem regular_below {state : State} (h : Regular (.object state)) (name : String) :
    Regular (.object (state.below name)) := by
  rw [below]
  split
  · next fields hfind =>
    cases h with
    | object _ hfields => exact hfields _ (Bindings.mem_of_find?_eq_some hfind)
  · exact .object .nil (List.forall_mem_nil _)

/-- A write of a value that repeats no member leaves a state that repeats none. -/
theorem regular_write {state : State} (h : Regular (.object state)) (path : List String)
    {value : Json} (hvalue : value.Regular) : Regular (.object (state.write path value)) := by
  induction path generalizing state with
  | nil => exact h
  | cons name rest ih =>
    cases rest with
    | nil => exact h.insert name hvalue
    | cons next rest =>
      rw [write_cons]
      exact h.insert name (ih (regular_below h name))

theorem regular_writeAll {state : State} (h : Regular (.object state))
    {writes : List (List String × Json)} (hwrites : ∀ written ∈ writes, written.2.Regular) :
    Regular (.object (state.writeAll writes)) := by
  induction writes generalizing state with
  | nil => exact h
  | cons written rest ih =>
    obtain ⟨hfirst, hrest⟩ := List.forall_mem_cons.mp hwrites
    exact ih (regular_write h written.1 hfirst) hrest

end State

/-- A value that a component stores, at a path given as text. -/
structure Assignment where
  ctx : Context
  expression : String
  value : Json

namespace Assignment

/-- The names in the text of the path. -/
def path (assignment : Assignment) : List String :=
  Template.names assignment.expression.toList

/-- The path is literal and can be written to: its text has no expression in it, and none of its
names is empty. -/
structure Literal (assignment : Assignment) : Prop where
  unmentioned : ∀ chars, .path chars ∉ Template.parts assignment.expression.toList
  named : "" ∉ assignment.path

/-- Stores the value as the block of the component does. -/
def perform (assignment : Assignment) : Step World BlockError Unit :=
  assignment.ctx.setState assignment.expression assignment.value

/-- Stores values one after the other. -/
def performAll : List Assignment → Step World BlockError Unit
  | [] => Step.ok ()
  | assignment :: rest => do
    assignment.perform
    performAll rest

/-- What the assignment stores, and where. -/
def written (assignment : Assignment) : List String × Json := (assignment.path, assignment.value)

/-- A literal assignment succeeds and is a write to the names in its path. -/
theorem Literal.perform_eq {assignment : Assignment} (h : assignment.Literal) (world : World) :
    assignment.perform world = (.ok (),
      world.write assignment.ctx.node.id assignment.path assignment.value) := by
  have hrender : Template.render (world.state.lookup assignment.ctx.env) assignment.expression =
      assignment.expression := Template.render_of_no_path h.unmentioned
  have hnamed : "" ∉ Template.names assignment.expression.toList := h.named
  rw [perform, Context.setState_eq]
  simp only [hrender, if_neg hnamed]
  rfl

/-- Literal assignments succeed, and leave the state with their writes. -/
theorem performAll_eq {assignments : List Assignment}
    (h : ∀ assignment ∈ assignments, assignment.Literal) (world : World) :
    ∃ after : World, performAll assignments world = (.ok (), after) ∧
      after.state = world.state.writeAll (assignments.map written) := by
  induction assignments generalizing world with
  | nil => exact ⟨world, rfl, rfl⟩
  | cons assignment rest ih =>
    obtain ⟨hfirst, hrest⟩ := List.forall_mem_cons.mp h
    obtain ⟨after, hperform, hstate⟩ :=
      ih hrest (world.write assignment.ctx.node.id assignment.path assignment.value)
    refine ⟨after, ?_, hstate⟩
    rw [performAll, Step.bind_ok (hfirst.perform_eq world), hperform]

end Assignment

/-- A pool whose iterations make known writes leaves the state with all of them, in the order of the
iterations. -/
theorem Engine.runPool_writes {engine : Engine} {branches : Branches} {source label : String}
    {envs : List Environment} {stores : Environment → List (List String × Json)}
    (h : ∀ env ∈ envs, ∀ world : World, ∃ value? after,
      engine.runBranch branches source label env world = (.ok value?, after) ∧
      after.state = world.state.writeAll (stores env)) (world : World) :
    ∃ values after, engine.runPool branches source label envs world = (.ok values, after) ∧
      after.state = world.state.writeAll (envs.map stores).flatten := by
  rw [runPool_eq_iterate]
  induction envs generalizing world with
  | nil => exact ⟨[], world, rfl, rfl⟩
  | cons env rest ih =>
    obtain ⟨hfirst, hrest⟩ := List.forall_mem_cons.mp h
    obtain ⟨value?, between, hrun, hbetween⟩ := hfirst world
    obtain ⟨values, after, hiterate, hafter⟩ := ih hrest between
    have hcaught : (engine.runBranch branches source label env).catchCrash .join world =
        (.ok value?, between) := by
      simp only [Step.catchCrash, hrun]
    refine ⟨value?.getD .null :: values, after, ?_, ?_⟩
    · rw [iterate, Step.bind_ok hcaught, Step.bind_ok hiterate]
      rfl
    · rw [hafter, hbetween, List.map_cons, List.flatten_cons, State.writeAll_append]

/-- A component that depends on nothing is executed at once. -/
theorem Engine.runFresh_alone {engine : Engine} {branches : Branches} {node : Node}
    {env : Environment} {world : World} {record : Record} {after : Frame}
    (hcontains : engine.registry.contains node.type = true)
    (hneeded : dependencies node [node] = []) (hterminals : terminals [node] = [node])
    (hexecute : engine.execute branches node (nodeEnv env .null { resolving := [node.id] })
      { scope := { resolving := [node.id] }, world } = (.ok (.reached record), after))
    (hreturned : record.returned? = none) :
    engine.runFresh branches [node] env world = (.ok none, after.world) := by
  have hnode : engine.runNode branches [node] env node { world } =
      (.ok (.reached record), after.leave node.id) := by
    rw [runNode, resolve, hcontains, hneeded]
    exact congrArg (fun result : Ending FlowError Resolution × Frame =>
      (result.1, result.2.leave node.id)) hexecute
  have hnodes : engine.runNodes branches [node] env { world } =
      (.ok none, after.leave node.id) := by
    rw [runNodes, hterminals, runEach, Step.bind_ok hnode]
    simp only [hreturned]
    rfl
  simp only [runFresh, hnodes]
  rfl

namespace Assignment

open Json (Alike Regular)

/-- Values stored at literal paths of which none lies inside another leave the same state in any
order: equal but for the order of members, and the same value if those stored and those in the state
before are ones that JSON can express. So do the iterations of a pool, in whatever order they run,
if each of them makes writes of its own. -/
theorem performAll_of_perm (world : World) :
    (∀ assignments others : List Assignment, assignments.Perm others →
      (∀ assignment ∈ assignments, assignment.Literal) →
      assignments.Pairwise (fun assignment other => Apart assignment.path other.path) →
      ∃ after other : World,
        performAll assignments world = (.ok (), after) ∧
        performAll others world = (.ok (), other) ∧
        Alike (.object after.state) (.object other.state) ∧
        (Regular (.object world.state) → (∀ assignment ∈ assignments, assignment.value.Regular) →
          Json.same (.object after.state) (.object other.state) = true)) ∧
    ∀ (engine : Engine) (branches : Branches) (source label : String)
      (envs others : List Environment) (stores : Environment → List (List String × Json)),
      envs.Perm others →
      (∀ env ∈ envs, ∀ world : World, ∃ value? after,
        engine.runBranch branches source label env world = (.ok value?, after) ∧
        after.state = world.state.writeAll (stores env)) →
      envs.Pairwise (fun env other => AllApart (stores env) (stores other)) →
      ∃ values otherValues after other,
        engine.runPool branches source label envs world = (.ok values, after) ∧
        engine.runPool branches source label others world = (.ok otherValues, other) ∧
        Alike (.object after.state) (.object other.state) := by
  constructor
  · intro assignments others hperm hliteral hapart
    obtain ⟨after, hafter, hstate⟩ := performAll_eq hliteral world
    obtain ⟨other, hother, hotherState⟩ :=
      performAll_eq (fun assignment hmem => hliteral assignment (hperm.mem_iff.mpr hmem)) world
    have hgroups : ∀ assignments : List Assignment,
        (assignments.map fun assignment => [assignment.written]).flatten =
          assignments.map written := by
      intro assignments
      rw [← List.flatMap_def, ← List.map_eq_flatMap]
    have halike : Alike (.object after.state) (.object other.state) := by
      rw [hstate, hotherState, ← hgroups, ← hgroups]
      refine State.alike_writeAll_of_perm _ (hperm.map _) (List.pairwise_map.mpr ?_)
      refine hapart.imp fun happart written hwritten other hother => ?_
      rw [List.mem_singleton.mp hwritten, List.mem_singleton.mp hother]
      exact happart
    refine ⟨after, other, hafter, hother, halike, fun hregular hvalues => ?_⟩
    refine Regular.same_of_alike ?_ ?_ halike
    · rw [hstate]
      exact State.regular_writeAll hregular (List.forall_mem_map.mpr hvalues)
    · rw [hotherState]
      refine State.regular_writeAll hregular (List.forall_mem_map.mpr fun assignment hmem => ?_)
      exact hvalues assignment (hperm.mem_iff.mpr hmem)
  · intro engine branches source label envs others stores hperm hwrites hapart
    obtain ⟨values, after, hrun, hstate⟩ := Engine.runPool_writes hwrites world
    obtain ⟨otherValues, other, hother, hotherState⟩ :=
      Engine.runPool_writes (fun env hmem => hwrites env (hperm.mem_iff.mpr hmem)) world
    refine ⟨values, otherValues, after, other, hrun, hother, ?_⟩
    rw [hstate, hotherState]
    exact State.alike_writeAll_of_perm _ (hperm.map _) (List.pairwise_map.mpr hapart)

namespace Sample

/-- Both go through `seen`, which is a list at first. -/
def first : Assignment := ⟨Context.Sample.context, "seen.a", .int 1⟩

/-- Stores at another member of the same object. -/
def second : Assignment := ⟨Context.Sample.context, "seen. b .c", .text "x"⟩

/-- The state in which `seen` is a list. -/
def listed : World where
  state := [("seen", .list [.null])]

theorem literal_first : first.Literal where
  unmentioned := by
    have hparts : Template.parts first.expression.toList = [.text "seen.a".toList] := by
      decide +kernel
    simp [hparts]
  named := by decide +kernel

theorem literal_second : second.Literal where
  unmentioned := by
    have hparts : Template.parts second.expression.toList = [.text "seen. b .c".toList] := by
      decide +kernel
    simp [hparts]
  named := by decide +kernel

/-- The environment of the iteration for one item. -/
def itemEnv (item : String) : Environment := .ofList [("item", .text item)]

/-- What the iteration for the item of the environment stores. -/
def stores (env : Environment) : List (List String × Json) :=
  [(["seen", Json.plain ((env.get? "item").getD .null)], .text "v")]

/-- Stores a text at a path of its own for each item. -/
def body : Node := { SetState.Sample.writer "seen.@\x7bitem\x7d" with parent? := some "f" }

section Body

variable {item : String} {branches : Branches} {env : Environment}

/-- The path of the item's iteration ends with the item. -/
theorem text_element (henv : env.get? "item" = some (.text item)) (state : State) :
    Field.text body.content (state.lookup env) "element" = Template.dotted ["seen", item] := by
  have hparts : Template.parts "seen.@\x7bitem\x7d".toList =
      [.text ['s', 'e', 'e', 'n', '.'], .path ['i', 't', 'e', 'm']] := by decide +kernel
  have hlook : state.lookup env ['i', 't', 'e', 'm'] = .text item := by
    have hnames : Template.names ['i', 't', 'e', 'm'] = ["item"] := by decide +kernel
    simp only [State.lookup, hnames, henv, Option.some_or]
    rfl
  change Template.render (state.lookup env) "seen.@\x7bitem\x7d" = _
  rw [Template.render, hparts, ← String.toList_inj, Template.toList_dotted_cons,
    Template.dotted_singleton]
  simp [Template.fill, Template.Part.fill, Template.splice, hlook, Json.plain]

/-- The block of the body stores at the path of the item, whatever is in the state. -/
theorem block_body (henv : env.get? "item" = some (.text item)) (hitem : Template.IsName item)
    (world : World) :
    SetState.block (Sample.marker.toEngine.context branches body env) world =
      (.ok (.success (.text "v")), world.write "s" ["seen", item] (.text "v")) := by
  let ctx := Sample.marker.toEngine.context branches body env
  have hpath : Template.IsPath ["seen", item] :=
    ⟨List.cons_ne_nil _ _, List.forall_mem_cons.mpr
      ⟨by decide +kernel, List.forall_mem_singleton.mpr hitem⟩⟩
  have hnode : ctx.tree.get? ctx.node.id = some body := rfl
  have hfield := Context.field_eq hnode "element" world
  rw [show Field.text body.content (world.state.lookup ctx.env) "element" = _ from
    text_element henv _] at hfield
  have hsome : (Template.dotted ["seen", item]).isEmpty = false := by
    simp [Template.dotted]
  have helement : ctx.requireField "element" world =
      (.ok (Template.dotted ["seen", item]), world) := by
    rw [Context.requireField, Step.bind_ok hfield, hsome]
    rfl
  have hread : SetState.readValue ctx world = (.ok (.text "v"), world) := by
    rw [SetState.readValue_eq hnode, show SetState.value body.content _ = _ from
      SetState.Sample.value_writer _ _]
    rfl
  have hstore : SetState.store ctx world =
      (.ok (.text "v"), world.write "s" ["seen", item] (.text "v")) := by
    rw [SetState.store, Step.bind_ok helement, Step.bind_ok hread,
      Step.bind_ok (ctx.setState_dotted world hpath _)]
    rfl
  rw [SetState.block, Step.bind_ok (Step.mapError_of_ok hstore)]
  rfl

/-- The iteration for an item ends without a return value, after one write at the item's path. -/
theorem runBranch_body (hitem : Template.IsName item) (world : World) :
    Sample.marker.toEngine.runBranch branches "f" ForEach.loopLabel (itemEnv item) world =
      (.ok none, (world.note (.started "s" SetState.type)).write "s" ["seen", item]
        (.text "v")) := by
  have hcreate : Sample.marker.registry.create body = .ok SetState.block := by cbv
  have hbranch : Sample.marker.tree.branch "f" ForEach.loopLabel = .ok [body] := rfl
  rw [Engine.runBranch, hbranch]
  refine Engine.runFresh_alone (by decide +kernel) rfl rfl (Engine.execute_of_executes
    (.succeeded hcreate (block_body rfl hitem _))) rfl

end Body

end Sample

/-- The member that is stored first stands first, and the list gives place to an object either way.
The iterations for two items leave the same state, whichever comes first. -/
theorem performAll_of_perm_listed :
    (∃ after other : World,
      performAll [Sample.first, Sample.second] Sample.listed = (.ok (), after) ∧
      performAll [Sample.second, Sample.first] Sample.listed = (.ok (), other) ∧
      (Json.object after.state).compact =
        "\x7b\"seen\":\x7b\"a\":1,\"b\":\x7b\"c\":\"x\"\x7d\x7d\x7d" ∧
      (Json.object other.state).compact =
        "\x7b\"seen\":\x7b\"b\":\x7b\"c\":\"x\"\x7d,\"a\":1\x7d\x7d" ∧
      Json.same (.object after.state) (.object other.state) = true) ∧
    ∃ values otherValues after other,
      Sample.marker.toEngine.runPool (Sample.marker.toEngine.branches 0) "f" ForEach.loopLabel
        [Sample.itemEnv "a", Sample.itemEnv "b"] Sample.listed = (.ok values, after) ∧
      Sample.marker.toEngine.runPool (Sample.marker.toEngine.branches 0) "f" ForEach.loopLabel
        [Sample.itemEnv "b", Sample.itemEnv "a"] Sample.listed = (.ok otherValues, other) ∧
      Alike (.object after.state) (.object other.state) := by
  obtain ⟨hassignments, hpools⟩ := performAll_of_perm Sample.listed
  constructor
  · have hliteral : ∀ assignment ∈ [Sample.first, Sample.second], assignment.Literal :=
      List.forall_mem_cons.mpr
        ⟨Sample.literal_first, List.forall_mem_singleton.mpr Sample.literal_second⟩
    have hvalues : ∀ assignment ∈ [Sample.first, Sample.second], assignment.value.Regular :=
      List.forall_mem_cons.mpr ⟨.int 1, List.forall_mem_singleton.mpr (.text "x")⟩
    have hregular : Regular (.object Sample.listed.state) :=
      .object (by decide) (List.forall_mem_singleton.mpr
        (.list (List.forall_mem_singleton.mpr .null)))
    obtain ⟨after, other, hafter, hother, -, hsame⟩ :=
      hassignments _ _ (.swap Sample.second Sample.first []) hliteral
        (List.pairwise_pair.mpr (by decide +kernel))
    have hfirst : (Json.object
        (performAll [Sample.first, Sample.second] Sample.listed).2.state).compact =
        "\x7b\"seen\":\x7b\"a\":1,\"b\":\x7b\"c\":\"x\"\x7d\x7d\x7d" := by decide +kernel
    have hsecond : (Json.object
        (performAll [Sample.second, Sample.first] Sample.listed).2.state).compact =
        "\x7b\"seen\":\x7b\"b\":\x7b\"c\":\"x\"\x7d,\"a\":1\x7d\x7d" := by decide +kernel
    rw [hafter] at hfirst
    rw [hother] at hsecond
    exact ⟨after, other, hafter, hother, hfirst, hsecond, hsame hregular hvalues⟩
  · refine hpools _ _ _ _ _ _ Sample.stores (.swap _ _ []) ?_ (List.pairwise_pair.mpr ?_)
    · refine List.forall_mem_cons.mpr
        ⟨fun world => ?_, List.forall_mem_singleton.mpr fun world => ?_⟩
      · exact ⟨_, _, Sample.runBranch_body (show Template.IsName "a" by decide +kernel) world, rfl⟩
      · exact ⟨_, _, Sample.runBranch_body (show Template.IsName "b" by decide +kernel) world, rfl⟩
    · intro written hwritten other hother
      rw [List.mem_singleton.mp hwritten, List.mem_singleton.mp hother]
      decide +kernel

end Assignment

end Workflow
