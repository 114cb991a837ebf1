import Workflow.Proofs.Template

namespace Workflow

namespace State

/-- What the names lead to in the state. -/
def at? (state : State) (path : List String) : Option Json := (Json.object state).follow? path

/-- On the way to the path, nothing in the state is a list. -/
def Unlisted (state : State) (path : List String) : Prop :=
  ∀ front, front <+: path → front ≠ path → ∀ items, state.at? front ≠ some (.list items)

@[simp] theorem at?_cons (state : State) (name : String) (rest : List String) :
    state.at? (name :: rest) = (Bindings.find? state name).bind (·.follow? rest) := rfl

/-- The object below a name, into which a longer path is written. -/
def below (state : State) (name : String) : State :=
  match Bindings.find? state name with
  | some (.object fields) => fields
  | _ => []

/-- A longer path is written into the object below its first name, and whatever else was there gives
place to that object. -/
theorem write_cons (state : State) (name next : String) (rest : List String) (value : Json) :
    state.write (name :: next :: rest) value =
      Bindings.insert state name (.object ((state.below name).write (next :: rest) value)) := rfl

theorem write_singleton (state : State) (name : String) (value : Json) :
    state.write [name] value = Bindings.insert state name value := rfl

/-- A write binds the first name of its path. -/
theorem exists_insert_of_write (state : State) (name : String) (rest : List String) (value : Json) :
    ∃ stored, state.write (name :: rest) value = Bindings.insert state name stored := by
  cases rest with
  | nil => exact ⟨_, rfl⟩
  | cons next rest => exact ⟨_, write_cons state name next rest value⟩

theorem below_insert (state : State) (name : String) (fields : Bindings Json) :
    below (Bindings.insert state name (.object fields)) name = fields := by
  rw [below, Bindings.find?_insert_self]

/-- Where no list lies below a name, what lies further below is in the object there. -/
theorem at?_below {state : State} {name : String} (hlist : ∀ items,
    Bindings.find? state name ≠ some (.list items)) (next : String) (rest : List String) :
    (state.below name).at? (next :: rest) = state.at? (name :: next :: rest) := by
  rw [at?_cons state name]
  unfold below
  cases hfind : Bindings.find? state name with
  | none => rfl
  | some value =>
    cases value with
    | object fields => rfl
    | list items => exact absurd hfind (hlist items)
    | _ => rfl

namespace Unlisted

variable {state : State} {name next : String} {rest : List String}

theorem find?_ne_list (h : state.Unlisted (name :: next :: rest)) (items : List Json) :
    Bindings.find? state name ≠ some (.list items) := by
  intro hfind
  refine h [name] (by simp) (by simp) items ?_
  rw [at?_cons, hfind]
  rfl

theorem below (h : state.Unlisted (name :: next :: rest)) :
    (state.below name).Unlisted (next :: rest) := by
  intro front hfront hne items hat
  cases front with
  | nil => cases hat
  | cons other more =>
    rw [at?_below h.find?_ne_list] at hat
    refine h (name :: other :: more) (List.cons_prefix_cons.mpr ⟨rfl, hfront⟩) ?_ items hat
    exact fun heq => hne (List.cons.inj heq).2

theorem singleton (state : State) (name : String) : state.Unlisted [name] := by
  intro front hfront hne items hat
  obtain _ | ⟨other, more⟩ := front
  · cases hat
  · obtain ⟨rfl, hmore⟩ := List.cons_prefix_cons.mp hfront
    exact hne (congrArg _ (List.prefix_nil.mp hmore))

/-- A path passes no list if its first name leads to none and the rest passes none below it. -/
theorem cons (hlist : ∀ items, Bindings.find? state name ≠ some (.list items))
    (h : (state.below name).Unlisted (next :: rest)) : state.Unlisted (name :: next :: rest) := by
  intro front hfront hne items hat
  obtain _ | ⟨other, more⟩ := front
  · cases hat
  · obtain ⟨rfl, hmore⟩ := List.cons_prefix_cons.mp hfront
    obtain _ | ⟨second, more⟩ := more
    · exact hlist items (by simpa [Json.follow?] using hat)
    · rw [← at?_below hlist] at hat
      exact h _ hmore (fun heq => hne (congrArg _ heq)) items hat

end Unlisted

/-- A written value is found where it was written. -/
theorem at?_write_self (state : State) {path : List String} (hsome : path ≠ []) (value : Json) :
    (state.write path value).at? path = some value := by
  induction path generalizing state with
  | nil => exact absurd rfl hsome
  | cons name rest ih =>
    cases rest with
    | nil =>
      rw [write_singleton, at?_cons, Bindings.find?_insert_self]
      rfl
    | cons next rest =>
      rw [write_cons, at?_cons, Bindings.find?_insert_self]
      exact ih (state.below name) (List.cons_ne_nil _ _)

/-- Elsewhere in the state nothing changes. -/
theorem at?_write_of_not_prefix {state : State} {path other : List String}
    (hbelow : ¬ path <+: other) (habove : ¬ other <+: path) (hunlisted : state.Unlisted path)
    (value : Json) : (state.write path value).at? other = state.at? other := by
  induction path generalizing state other with
  | nil => exact absurd List.nil_prefix hbelow
  | cons name rest ih =>
    obtain _ | ⟨first, more⟩ := other
    · exact absurd List.nil_prefix habove
    · by_cases hname : name = first
      · -- Both paths go through `name`, so they differ in the object below it.
        subst hname
        rw [List.cons_prefix_cons] at hbelow habove
        obtain _ | ⟨next, rest⟩ := rest
        · exact absurd ⟨rfl, List.nil_prefix⟩ hbelow
        obtain _ | ⟨second, more⟩ := more
        · exact absurd ⟨rfl, List.nil_prefix⟩ habove
        rw [write_cons, at?_cons, Bindings.find?_insert_self, ← at?_below hunlisted.find?_ne_list]
        exact ih (fun h => hbelow ⟨rfl, h⟩) (fun h => habove ⟨rfl, h⟩) hunlisted.below
      · obtain ⟨stored, hwrite⟩ := exists_insert_of_write state name rest value
        rw [hwrite, at?_cons, at?_cons, Bindings.find?_insert_of_ne state stored hname]

/-- A write to the same path leaves nothing of the one before. -/
theorem write_write_self (state : State) (path : List String) (first second : Json) :
    (state.write path first).write path second = state.write path second := by
  induction path generalizing state with
  | nil => rfl
  | cons name rest ih =>
    cases rest with
    | nil => exact Bindings.insert_insert_self state name first second
    | cons next rest =>
      rw [write_cons, write_cons, below_insert, Bindings.insert_insert_self, ih, ← write_cons]

section Lookup

variable {state other : State} {env : Environment} {path : List String}

/-- Where no variable hides it, an expression is the value at its path. -/
theorem lookup_of_unbound (hpath : Template.IsPath path)
    (hunbound : ∀ name ∈ path.head?, env.get? name = none) :
    state.lookup env (Template.dotted path).toList = (state.at? path).getD .null := by
  unfold lookup
  rw [hpath.names_dotted]
  cases path with
  | nil => exact absurd rfl hpath.nonempty
  | cons name rest =>
    simp only [hunbound name rfl, Option.none_or, at?_cons]
    cases Bindings.find? state name <;> rfl

/-- An expression whose path leads to the same value in two states is the same in both. -/
theorem lookup_congr (hpath : Template.IsPath path) (h : state.at? path = other.at? path) :
    state.lookup env (Template.dotted path).toList =
      other.lookup env (Template.dotted path).toList := by
  by_cases hunbound : ∀ name ∈ path.head?, env.get? name = none
  · rw [lookup_of_unbound hpath hunbound, lookup_of_unbound hpath hunbound, h]
  · obtain _ | ⟨name, rest⟩ := path
    · exact absurd rfl hpath.nonempty
    · cases henv : env.get? name with
      | none => exact absurd (fun found hfound => Option.mem_some.mp hfound ▸ henv) hunbound
      | some root => simp only [lookup, hpath.names_dotted, henv, Option.some_or]

end Lookup

end State

/-- The field of the component at the end of the path is the template. -/
def Field.Authored (tree : Tree) (path : List Instance) (key template : String) : Prop :=
  ∃ last node, path.getLast? = some last ∧ tree.get? last.component = some node ∧
    Bindings.find? node.content key = some (.text template)

namespace Field

variable {tree : Tree} {path : List Instance} {key template : String}

/-- A field that is not empty is read as its template is, and its default is not needed. -/
theorem Authored.evaluate_eq (h : Authored tree path key template) (hsome : template ≠ "")
    (state : State) (env : Environment) (asJson : Bool) (default : String) :
    evaluate tree state env path key asJson default =
      ofTemplate (state.lookup env) key template asJson := by
  obtain ⟨last, node, hlast, hnode, hfind⟩ := h
  have hempty : template.isEmpty = false := by simpa using hsome
  simp only [evaluate, hlast, hnode, source, hfind, hempty]
  rfl

/-- Read as JSON, a lone expression is the value of its path itself. -/
theorem ofTemplate_expression {names : List String} (hnames : Template.IsPath names)
    (look : List Char → Json) :
    ofTemplate look key (Template.expression names) true =
      .ok (look (Template.dotted names).toList) := by
  simp only [ofTemplate, Template.parts_expression hnames, if_true]

variable {names : List String} {state other : State} {env : Environment}

/-- Read as JSON, an expression that no variable hides is the value at its path. -/
theorem Authored.evaluate_of_at? (h : Authored tree path key (Template.expression names))
    (hnames : Template.IsPath names) (hunbound : ∀ name ∈ names.head?, env.get? name = none)
    {value : Json} (hat : state.at? names = some value) (default : String) :
    evaluate tree state env path key true default = .ok value := by
  rw [h.evaluate_eq (Template.expression_ne_empty names), ofTemplate_expression hnames,
    State.lookup_of_unbound hnames hunbound, hat]
  rfl

/-- An expression reads the same in states in which its path leads to the same. -/
theorem Authored.evaluate_congr (h : Authored tree path key (Template.expression names))
    (hnames : Template.IsPath names) (hat : state.at? names = other.at? names) (env : Environment)
    (default : String) (asJson : Bool) :
    evaluate tree state env path key asJson default =
      evaluate tree other env path key asJson default := by
  have hsome := Template.expression_ne_empty names
  rw [h.evaluate_eq hsome, h.evaluate_eq hsome]
  refine ofTemplate_congr fun chars hchars => ?_
  rw [Template.parts_expression hnames, List.mem_singleton] at hchars
  cases hchars
  exact State.lookup_congr hnames hat

end Field

namespace Context

variable (ctx : Context) (world : World)

/-- A path that is written from names is stored at these names. -/
theorem setState_dotted {names : List String} (hnames : Template.IsPath names) (value : Json) :
    ctx.setState (Template.dotted names) value world =
      (.ok (), world.write ctx.node.id names value) := by
  have hvalid : "" ∉ names := fun hmem => (hnames.names "" hmem).nonempty rfl
  rw [setState_eq]
  simp only [Template.render_dotted hnames, hnames.names_dotted, if_neg hvalid]

/-- Writing fails at a path with an empty name, and nowhere else. It then changes nothing. -/
theorem setState_fails (expression : String) (value : Json) :
    ((ctx.setState expression value world).1 ≠ .ok () ↔
      ∃ piece ∈ Text.pieces '.' (Template.render (world.state.lookup ctx.env) expression).toList,
        Text.trim piece = []) ∧
    ((ctx.setState expression value world).1 ≠ .ok () →
      (ctx.setState expression value world).2 = world) := by
  rw [← Template.empty_mem_names_iff, setState_eq]
  by_cases hinvalid :
      "" ∈ Template.names (Template.render (world.state.lookup ctx.env) expression).toList
  · simp [hinvalid]
  · simp [hinvalid]

/-- A path written to reads back as the value, and writing there again leaves the value written
last and nothing else. Paths that lie neither above nor below it read as they did before, unless a
list on the way gave place to an object. Only a path with an empty name cannot be written to. -/
theorem setState_reads_back :
    (∀ names, Template.IsPath names → ∀ value, ∃ after : World,
      ctx.setState (Template.dotted names) value world = (.ok (), after) ∧
      (∀ (env : Environment), (∀ name ∈ names.head?, env.get? name = none) →
        ∀ (tree : Tree) (path : List Instance) (key default : String),
          Field.Authored tree path key (Template.expression names) →
          Field.evaluate tree after.state env path key true default = .ok value) ∧
      (∀ others, Template.IsPath others → ¬ names <+: others → ¬ others <+: names →
        world.state.Unlisted names →
        ∀ (env : Environment) (tree : Tree) (path : List Instance) (key default : String)
          (asJson : Bool), Field.Authored tree path key (Template.expression others) →
          Field.evaluate tree after.state env path key asJson default =
            Field.evaluate tree world.state env path key asJson default) ∧
      ∀ later, ∃ twice once : World,
        ctx.setState (Template.dotted names) later after = (.ok (), twice) ∧
        ctx.setState (Template.dotted names) later world = (.ok (), once) ∧
        twice.state = once.state) ∧
    ∀ (expression : String) (value : Json),
      ((ctx.setState expression value world).1 ≠ .ok () ↔
        ∃ piece ∈ Text.pieces '.' (Template.render (world.state.lookup ctx.env) expression).toList,
          Text.trim piece = []) ∧
      ((ctx.setState expression value world).1 ≠ .ok () →
        (ctx.setState expression value world).2 = world) := by
  refine ⟨fun names hnames value => ?_, ctx.setState_fails world⟩
  refine ⟨_, ctx.setState_dotted world hnames value, ?_, ?_, fun later => ?_⟩
  · intro env hunbound tree path key default hfield
    exact hfield.evaluate_of_at? hnames hunbound
      (world.state.at?_write_self hnames.nonempty value) default
  · intro others hothers hbelow habove hunlisted env tree path key default asJson hfield
    exact hfield.evaluate_congr hothers
      (State.at?_write_of_not_prefix hbelow habove hunlisted value) env default asJson
  · exact ⟨_, _, ctx.setState_dotted _ hnames later, ctx.setState_dotted world hnames later,
      world.state.write_write_self names value later⟩

namespace Sample

/-- Its fields mention what is stored in one place and in another. -/
def reader : Node :=
  { id := "r", type := "reader"
    content := [("written", .text "@\x7ba.b\x7d"), ("kept", .text "@\x7ba.0\x7d")] }

def tree : Tree where
  nodes := [reader]
  distinct := by decide

/-- Of `a` a member is stored whose name is a number, and a text is where an object is needed. -/
def stored : World where
  state := [("a", .object [("0", .list [.bool true]), ("b", .text "scalar")])]

/-- At hand for a block of the reader. -/
def context : Context where
  node := reader
  env := .ofList []
  tree := tree
  branches := ⟨fun _ _ _ => pure none, fun _ _ _ => pure []⟩

end Sample

/-- A member is replaced by a value, another keeps its own, and an empty name is refused. -/
theorem setState_reads_back_object :
    ∃ after : World,
      Sample.context.setState "a.b" (.int 2) Sample.stored = (.ok (), after) ∧
      Field.evaluate Sample.tree after.state (.ofList []) [⟨"r", 0⟩] "written" true "" =
        .ok (.int 2) ∧
      Field.evaluate Sample.tree after.state (.ofList []) [⟨"r", 0⟩] "kept" true "" =
        .ok (.list [.bool true]) ∧
      (Sample.context.setState "a. .b" .null Sample.stored).1 ≠ .ok () ∧
      (Sample.context.setState "a. .b" .null Sample.stored).2 = Sample.stored := by
  obtain ⟨hwrites, hfails⟩ := setState_reads_back Sample.context Sample.stored
  obtain ⟨after, hafter, hself, hkept, -⟩ := hwrites ["a", "b"] (by decide +kernel) (.int 2)
  obtain ⟨hiff, hsame⟩ := hfails "a. .b" .null
  have hinvalid : (Sample.context.setState "a. .b" .null Sample.stored).1 ≠ .ok () :=
    hiff.mpr (by decide +kernel)
  refine ⟨after, hafter, ?_, ?_, hinvalid, hsame hinvalid⟩
  · exact hself (.ofList []) (by decide) Sample.tree [⟨"r", 0⟩] "written" ""
      ⟨⟨"r", 0⟩, Sample.reader, rfl, rfl, rfl⟩
  · have hkeptField :
        Field.Authored Sample.tree [⟨"r", 0⟩] "kept" (Template.expression ["a", "0"]) :=
      ⟨⟨"r", 0⟩, Sample.reader, rfl, rfl, rfl⟩
    have hunlisted : Sample.stored.state.Unlisted ["a", "b"] :=
      .cons (fun items hfind => by cases hfind) (.singleton _ _)
    rw [hkept ["a", "0"] (by decide +kernel) (by decide) (by decide) hunlisted (.ofList [])
      Sample.tree [⟨"r", 0⟩] "kept" "" true hkeptField]
    exact hkeptField.evaluate_of_at? (by decide +kernel) (by decide) rfl ""

end Context

end Workflow
