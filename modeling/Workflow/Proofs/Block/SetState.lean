import Workflow.Proofs.Block.Reading
import Workflow.Proofs.Run.Rules
import Workflow.Run.Branch

namespace Workflow.SetState

variable {content : Bindings Json} {look other : List Char → Json}

/-- The path that the block stores at. -/
def path (content : Bindings Json) (look : List Char → Json) : List String :=
  Template.names (Template.render look (Field.text content look "element")).toList

/-- The value that the block stores. -/
def value (content : Bindings Json) (look : List Char → Json) : Except BlockError Json :=
  if Field.text content look "valueType" = "JSON" then Field.json content look "value"
  else .ok (.text (Field.text content look "value"))

/-- The value depends only on what the paths in its own fields lead to. -/
theorem value_congr (h : ∀ key ∈ ["valueType", "value"], ∀ chars,
    .path chars ∈ Field.pieces content key → look chars = other chars) :
    value content look = value content other := by
  have htype := Field.text_congr (h "valueType" List.mem_cons_self)
  have hvalue := h "value" (List.mem_cons_of_mem _ List.mem_cons_self)
  rw [value, value, htype, Field.text_congr hvalue, Field.json_congr hvalue]

section Block

variable {ctx : Context} {node : Node}

/-- Reading the value changes nothing. -/
theorem readValue_eq (hnode : ctx.tree.get? ctx.node.id = some node) (world : World) :
    readValue ctx world =
      Step.ofExcept (value node.content (world.state.lookup ctx.env)) world := by
  rw [readValue, Step.bind_ok (Context.field_eq hnode _ _), value]
  split
  · exact Context.fieldJson_eq hnode _ _
  · rw [Step.bind_ok (Context.field_eq hnode _ _)]
    rfl

/-- The element is looked at first, then the value, and last the path that the element leads to. -/
theorem store_eq (hnode : ctx.tree.get? ctx.node.id = some node) (world : World) :
    let look := world.state.lookup ctx.env
    let element := Field.text node.content look "element"
    store ctx world =
      if element = "" then (.error (.missingField "element"), world)
      else
        match value node.content look with
        | .error e => (.error e, world)
        | .ok stored =>
          if "" ∈ path node.content look then
            (.error (.state ("invalid state path \"" ++ Template.render look element ++ "\"")), world)
          else (.ok stored, world.write ctx.node.id (path node.content look) stored) := by
  intro look element
  have hfield : ctx.field "element" world = (.ok element, world) := Context.field_eq hnode _ world
  by_cases hunnamed : element = ""
  · rw [if_pos hunnamed]
    refine Step.bind_error ?_
    rw [Context.requireField, Step.bind_ok hfield, if_pos (String.isEmpty_iff.mpr hunnamed)]
    rfl
  have hrequire : ctx.requireField "element" world = (.ok element, world) := by
    rw [Context.requireField, Step.bind_ok hfield, if_neg (mt String.isEmpty_iff.mp hunnamed)]
    rfl
  have hread : readValue ctx world = Step.ofExcept (value node.content look) world :=
    readValue_eq hnode world
  rw [if_neg hunnamed, store, Step.bind_ok hrequire]
  cases hvalue : value node.content look with
  | error e =>
    rw [hvalue] at hread
    exact Step.bind_error hread
  | ok stored =>
    rw [hvalue] at hread
    rw [Step.bind_ok hread]
    have hset : ctx.setState element stored world =
        if "" ∈ path node.content look then
          (.error (.state ("invalid state path \"" ++ Template.render look element ++ "\"")), world)
        else (.ok (), world.write ctx.node.id (path node.content look) stored) :=
      ctx.setState_eq world element stored
    by_cases hastray : "" ∈ path node.content look
    · rw [if_pos hastray] at hset
      simp only [if_pos hastray]
      exact Step.bind_error hset
    · rw [if_neg hastray] at hset
      simp only [if_neg hastray]
      rw [Step.bind_ok hset]
      rfl

theorem block_error {world after : World} {e : BlockError}
    (hstore : store ctx world = (.error e, after)) :
    block ctx world = (.error (.ofError e), after) :=
  Step.bind_error (Step.mapError_of_error hstore)

/-- The block fails if its component is not in the tree, where fields are looked up. -/
theorem block_of_missing (hnode : ctx.tree.get? ctx.node.id = none) (world : World) :
    ∃ failure, block ctx world = (.error failure, world) := by
  obtain ⟨e, hfield⟩ : ∃ e, ctx.fieldOr "element" false "" world = (.error e, world) := by
    simp only [Context.fieldOr, Field.evaluate, Context.path, Instance.pathOf,
      List.getLast?_singleton, hnode]
    exact ⟨_, rfl⟩
  have hrequire : ctx.requireField "element" world = (.error e, world) :=
    Step.bind_error (Step.bind_error hfield)
  exact ⟨_, block_error (Step.bind_error hrequire)⟩

/-- The block stores its value at its path and yields it, or fails and leaves the world as it
was. -/
theorem block_cases (ctx : Context) (hnode : ctx.tree.get? ctx.node.id = some node)
    (world : World) :
    (∃ stored, value node.content (world.state.lookup ctx.env) = .ok stored ∧
      block ctx world = (.ok (.success stored),
        world.write ctx.node.id (path node.content (world.state.lookup ctx.env)) stored)) ∨
    ∃ failure, block ctx world = (.error failure, world) := by
  have hstore := store_eq hnode world
  dsimp only at hstore
  split at hstore
  · exact Or.inr ⟨_, block_error hstore⟩
  · split at hstore
    · exact Or.inr ⟨_, block_error hstore⟩
    · next stored hvalue =>
      split at hstore
      · exact Or.inr ⟨_, block_error hstore⟩
      · refine Or.inl ⟨stored, hvalue, ?_⟩
        rw [block, Step.bind_ok (Step.mapError_of_ok hstore)]
        rfl

end Block

/-- A block that succeeds has stored its result at one path. That path is where the text of its
element leads once it is read as a template again; it is the text itself if no expression came into
it. Two runs whose data agree on what the templates of the fields mention yield the same result, and
store it at the same path if they agree on what the text of the element mentions as well. -/
theorem block_stores_where_element_leads (engine : Engine) (branches : Branches) {node : Node}
    {env : Environment} {world after : World} {output : Output} {element : String}
    (hnode : engine.tree.get? node.id = some node)
    (helement : element = Field.text node.content (world.state.lookup env) "element")
    (hblock : block (engine.context branches node env) world = (.ok output, after)) :
    after = world.write node.id
        (Template.names (Template.render (world.state.lookup env) element).toList)
        output.result ∧
    ((∀ chars, .path chars ∉ Template.parts element.toList) →
      after.state = world.state.write (Template.names element.toList) output.result) ∧
    ∀ (otherEnv : Environment) (otherWorld otherAfter : World) (otherOutput : Output),
      block (engine.context branches node otherEnv) otherWorld = (.ok otherOutput, otherAfter) →
      (∀ key ∈ ["element", "valueType", "value"], ∀ chars,
        .path chars ∈ Field.pieces node.content key →
          world.state.lookup env chars = otherWorld.state.lookup otherEnv chars) →
      otherOutput = output ∧
      ((∀ chars, .path chars ∈ Template.parts element.toList →
          world.state.lookup env chars = otherWorld.state.lookup otherEnv chars) →
        otherAfter = otherWorld.write node.id
          (Template.names (Template.render (world.state.lookup env) element).toList)
          output.result) := by
  have hstores : ∀ {env world output after},
      block (engine.context branches node env) world = (.ok output, after) →
      ∃ stored, value node.content (world.state.lookup env) = .ok stored ∧
        output = .success stored ∧
        after = world.write node.id (path node.content (world.state.lookup env)) stored := by
    intro env world output after hblock
    obtain ⟨stored, hstored, hdone⟩ | ⟨failure, hdone⟩ :=
      block_cases (engine.context branches node env) hnode world
    · cases hdone.symm.trans hblock
      exact ⟨stored, hstored, rfl, rfl⟩
    · cases hdone.symm.trans hblock
  subst helement
  obtain ⟨stored, hstored, rfl, rfl⟩ := hstores hblock
  refine ⟨rfl, fun hplain => ?_, fun otherEnv otherWorld otherAfter otherOutput hother hagree => ?_⟩
  · rw [path, Template.render_of_no_path hplain]
    rfl
  · obtain ⟨otherStored, hotherStored, rfl, rfl⟩ := hstores hother
    rw [← value_congr fun key hkey => hagree key (List.mem_cons_of_mem _ hkey), hstored]
      at hotherStored
    obtain rfl := Except.ok.inj hotherStored
    refine ⟨rfl, fun hmentioned => ?_⟩
    have htext := Field.text_congr (hagree "element" List.mem_cons_self)
    rw [path, ← htext, Template.render, ← Template.fill_congr false hmentioned]
    rfl

namespace Sample

/-- Stores a text at the path that its element yields. -/
def writer (element : String) : Node :=
  { id := "s", type := SetState.type, parent? := some "w"
    content := [("element", .text element), ("value", .text "v")] }

/-- Looks up the fields of the writer. -/
def engine (element : String) : Engine where
  registry := .standard
  tree := { nodes := [writer element], distinct := by simp }

/-- Runs the writer on an empty state. -/
def run (element : String) (env : Environment) : Ending Failure Output × World :=
  block ((engine element).context ((engine element).branches 0) (writer element) env) {}

theorem parts_empty : Template.parts "".toList = [] := by decide +kernel

theorem parts_value : Template.parts "v".toList = [.text ['v']] := by decide +kernel

/-- The writer's other fields mention nothing. -/
theorem agree {element : String} {look other : List Char → Json}
    (h : ∀ chars, .path chars ∈ Template.parts element.toList → look chars = other chars) :
    ∀ key ∈ ["element", "valueType", "value"], ∀ chars,
      .path chars ∈ Field.pieces (writer element).content key → look chars = other chars := by
  intro key hkey chars hpath
  have htype : Field.pieces (writer element).content "valueType" = [] := parts_empty
  have hvalue : Field.pieces (writer element).content "value" = [.text ['v']] := parts_value
  simp only [List.mem_cons, List.not_mem_nil, or_false] at hkey
  rcases hkey with rfl | rfl | rfl
  · refine h chars ?_
    by_cases hempty : element.isEmpty
    · obtain rfl : element = "" := String.isEmpty_iff.mp hempty
      exact hpath
    · simpa [Field.pieces, Field.source, Bindings.find?, writer, hempty] using hpath
  · rw [htype] at hpath
    cases hpath
  · rw [hvalue, List.mem_singleton] at hpath
    cases hpath

/-- The writer stores the same text whatever its element is. -/
theorem value_writer (element : String) (look : List Char → Json) :
    value (writer element).content look = .ok (.text "v") := by
  have htype : Field.text (writer element).content look "valueType" = "" := by
    change Template.render look "" = ""
    rw [Template.render, parts_empty]
    rfl
  have hvalue : Field.text (writer element).content look "value" = "v" := by
    change Template.render look "v" = "v"
    rw [Template.render, parts_value]
    rfl
  rw [value, htype, hvalue, if_neg (by decide)]

/-- Whether a run of the writer succeeded. -/
def succeeded : Ending Failure Output × World → Bool
  | (.ok _, _) => true
  | _ => false

/-- A run of the writer that succeeds has stored its text where the element leads. -/
theorem run_eq (element : String) (env : Environment)
    (h : succeeded (run element env) = true) :
    run element env = (.ok (.success (.text "v")),
      World.write {} "s" (path (writer element).content (State.lookup [] env)) (.text "v")) := by
  obtain ⟨stored, hstored, hdone⟩ | ⟨failure, hdone⟩ :=
    block_cases ((engine element).context ((engine element).branches 0) (writer element) env)
      (show (engine element).tree.get? "s" = some (writer element) from rfl) {}
  · obtain rfl := Except.ok.inj ((value_writer element _).symm.trans hstored)
    exact hdone
  · rw [run, hdone] at h
    cases h

end Sample

/-- A variable that the element does not mention is not looked at, whatever text it holds. -/
theorem block_stores_where_element_leads_plain :
    ∃ element env otherEnv after otherAfter,
      element = "seen.@\x7bitem\x7d" ∧
      env = Environment.ofList [("item", .text "a")] ∧
      otherEnv = Environment.ofList [("item", .text "a"), ("seen", .text "@\x7bitem\x7d")] ∧
      Sample.run element env = (.ok (.success (.text "v")), after) ∧
      Sample.run element otherEnv = (.ok (.success (.text "v")), otherAfter) ∧
      after.state = [("seen", .object [("a", .text "v")])] ∧ otherAfter = after := by
  let element := "seen.@\x7bitem\x7d"
  let env : Environment := .ofList [("item", .text "a")]
  let otherEnv : Environment := .ofList [("item", .text "a"), ("seen", .text "@\x7bitem\x7d")]
  have hparts : Template.parts element.toList = [.text "seen.".toList, .path "item".toList] := by
    decide +kernel
  have helement : "seen.a" =
      Field.text (Sample.writer element).content (State.lookup [] env) "element" := by
    decide +kernel
  have hplain : ∀ chars, .path chars ∉ Template.parts "seen.a".toList := by
    have hparts : Template.parts "seen.a".toList = [.text "seen.a".toList] := by decide +kernel
    intro chars hchars
    rw [hparts] at hchars
    cases List.mem_singleton.mp hchars
  have hitem : State.lookup [] env "item".toList = State.lookup [] otherEnv "item".toList := rfl
  have hfirst := Sample.run_eq element env (by decide +kernel)
  have hsecond := Sample.run_eq element otherEnv (by decide +kernel)
  have hnames : Template.names "seen.a".toList = ["seen", "a"] := by decide +kernel
  obtain ⟨_, hstate, hagree⟩ := block_stores_where_element_leads (Sample.engine element)
    ((Sample.engine element).branches 0) rfl helement hfirst
  obtain ⟨_, hsame⟩ := hagree otherEnv {} _ _ hsecond (Sample.agree (by
    rw [hparts]
    intro chars hchars
    rcases List.mem_cons.mp hchars with hfirst | hsecond
    · cases hfirst
    · obtain rfl := Template.Part.path.inj (List.mem_singleton.mp hsecond)
      exact hitem))
  refine ⟨element, env, otherEnv, _, _, rfl, rfl, rfl, hfirst, hsecond, ?_, ?_⟩
  · refine (hstate hplain).trans ?_
    rw [hnames]
    rfl
  · refine (hsame fun chars hchars => absurd hchars (hplain chars)).trans ?_
    rw [path, ← helement]
    rfl

/-- An expression in the text that the element leads to is looked up, so a variable that no field
mentions decides where the value is stored. -/
theorem block_looks_up_spliced_text :
    ∃ element env otherEnv,
      element = "@\x7btarget\x7d" ∧
      env = Environment.ofList [("target", .text "@\x7bsecret\x7d"), ("secret", .text "a")] ∧
      otherEnv = Environment.ofList [("target", .text "@\x7bsecret\x7d"), ("secret", .text "b")] ∧
      (∀ key ∈ ["element", "valueType", "value"], ∀ chars,
        .path chars ∈ Field.pieces (Sample.writer element).content key →
          State.lookup [] env chars = State.lookup [] otherEnv chars) ∧
      (Sample.run element env).1 = .ok (.success (.text "v")) ∧
      (Sample.run element otherEnv).1 = .ok (.success (.text "v")) ∧
      Field.text (Sample.writer element).content (State.lookup [] env) "element" =
        "@\x7bsecret\x7d" ∧
      (Sample.run element env).2.state = [("a", .text "v")] ∧
      (Sample.run element otherEnv).2.state = [("b", .text "v")] := by
  let element := "@\x7btarget\x7d"
  let env : Environment := .ofList [("target", .text "@\x7bsecret\x7d"), ("secret", .text "a")]
  let otherEnv : Environment := .ofList [("target", .text "@\x7bsecret\x7d"), ("secret", .text "b")]
  have hparts : Template.parts element.toList = [.path "target".toList] := by decide +kernel
  have hfirst := Sample.run_eq element env (by decide +kernel)
  have hsecond := Sample.run_eq element otherEnv (by decide +kernel)
  have hpath : path (Sample.writer element).content (State.lookup [] env) = ["a"] := by
    decide +kernel
  have hother : path (Sample.writer element).content (State.lookup [] otherEnv) = ["b"] := by
    decide +kernel
  rw [hpath] at hfirst
  rw [hother] at hsecond
  refine ⟨element, env, otherEnv, rfl, rfl, rfl, Sample.agree ?_, congrArg Prod.fst hfirst,
    congrArg Prod.fst hsecond, by decide +kernel, ?_, ?_⟩
  · rw [hparts]
    intro chars hchars
    obtain rfl := Template.Part.path.inj (List.mem_singleton.mp hchars)
    rfl
  · rw [hfirst]
    rfl
  · rw [hsecond]
    rfl

end Workflow.SetState
