import Workflow.Proofs.Block.ForEach
import Workflow.Proofs.Block.SetState
import Workflow.Proofs.Block.Total

namespace Workflow

namespace LogMessage

variable {ctx : Context} {node : Node}

/-- The block yields the text of its message and never fails. -/
theorem block_eq (hnode : ctx.tree.get? ctx.node.id = some node) (world : World) :
    block ctx world =
      (.ok (.success (.text (Field.text node.content (world.state.lookup ctx.env) "message"))),
        world) := by
  have hlevel := Step.mapError_of_ok (f := Failure.ofError) (Context.field_eq hnode "type" world)
  have hmessage :=
    Step.mapError_of_ok (f := Failure.ofError) (Context.field_eq hnode "message" world)
  rw [block, Step.bind_ok hlevel, Step.bind_ok hmessage]
  rfl

end LogMessage

namespace ReturnValue

variable {ctx : Context} {node : Node}

/-- The value that a field yields as JSON, or else its text. -/
theorem readValue_eq (hnode : ctx.tree.get? ctx.node.id = some node) (world : World) :
    ∃ value,
      (Field.evaluate ctx.tree world.state ctx.env ctx.path "value" true "null" = .ok value ∨
        (∃ e, Field.evaluate ctx.tree world.state ctx.env ctx.path "value" true "null" = .error e) ∧
          value = .text (Field.text node.content (world.state.lookup ctx.env) "value")) ∧
      readValue ctx world = (.ok value, world) := by
  have hread : ctx.fieldOr "value" true "null" world = Step.ofExcept
      (Field.evaluate ctx.tree world.state ctx.env ctx.path "value" true "null") world := rfl
  cases hvalue : Field.evaluate ctx.tree world.state ctx.env ctx.path "value" true "null" with
  | ok value =>
    rw [hvalue] at hread
    refine ⟨value, Or.inl rfl, ?_⟩
    rw [readValue, hread]
    rfl
  | error e =>
    obtain ⟨message, rfl⟩ := Field.evaluate_eq_error hvalue
    rw [hvalue] at hread
    refine ⟨_, Or.inr ⟨⟨_, rfl⟩, rfl⟩, ?_⟩
    have htext := Context.field_eq hnode "value" world
    simp only [readValue, hread, Step.ofExcept]
    rw [readText, Step.bind_ok htext]
    rfl

end ReturnValue

namespace ParseJson

variable {ctx : Context} {node : Node}

/-- The block fails just if its text is no JSON. -/
theorem readValue_eq_error_iff (hnode : ctx.tree.get? ctx.node.id = some node) {world after : World}
    {e : BlockError} :
    readValue ctx world = (.error e, after) ↔
      (∃ error, Json.parse (Field.text node.content (world.state.lookup ctx.env) "plainText") =
        .error error ∧ e = .executionFailed ("JSON parse error: " ++ error.message)) ∧
      after = world := by
  rw [readValue, Step.bind_ok (Context.field_eq hnode "plainText" world)]
  cases Json.parse (Field.text node.content (world.state.lookup ctx.env) "plainText") with
  | ok value => exact ⟨nofun, nofun⟩
  | error error =>
    constructor
    · rintro ⟨⟩
      exact ⟨⟨error, rfl, rfl⟩, rfl⟩
    · rintro ⟨⟨_, ⟨⟩, rfl⟩, rfl⟩
      rfl

end ParseJson

namespace SetState

/-- Why a component cannot store its value, given the texts of its fields, its value read as JSON,
and the text of the path that its element leads to. A reason counts only if those before it do not
apply. -/
inductive Fault (text : String → String) (json : Except BlockError Json) (path : String) :
    BlockError → Prop where
  | unnamed (helement : text "element" = "") : Fault text json path (.missingField "element")
  | unread {message : String} (helement : text "element" ≠ "") (htype : text "valueType" = "JSON")
      (hvalue : json = .error (.evaluation "value" message)) :
      Fault text json path (.evaluation "value" message)
  | astray (helement : text "element" ≠ "")
      (hvalue : text "valueType" = "JSON" → ∃ value, json = .ok value)
      (hpath : ∃ piece ∈ Text.pieces '.' path.toList, Text.trim piece = []) :
      Fault text json path (.state ("invalid state path \"" ++ path ++ "\""))

variable {ctx : Context} {node : Node}

/-- The value is read as JSON only if its type says so. -/
theorem value_eq_error_iff {content : Bindings Json} {look : List Char → Json} {e : BlockError} :
    value content look = .error e ↔
      Field.text content look "valueType" = "JSON" ∧ Field.json content look "value" = .error e := by
  unfold value
  split
  · next htype => exact (and_iff_right htype).symm
  · next htype => exact ⟨nofun, fun h => absurd h.1 htype⟩

/-- There is a value to store unless it has to be JSON and is none. -/
theorem exists_value_eq_ok_iff {content : Bindings Json} {look : List Char → Json} :
    (∃ stored, value content look = .ok stored) ↔ (Field.text content look "valueType" = "JSON" →
      ∃ found, Field.json content look "value" = .ok found) := by
  unfold value
  split
  · next htype => exact ⟨fun h _ => h, fun h => h htype⟩
  · next htype => exact ⟨fun _ h => absurd h htype, fun _ => ⟨_, rfl⟩⟩

/-- The block fails with an error just if there is that reason for it, and then nothing is
stored. -/
theorem store_eq_error_iff (hnode : ctx.tree.get? ctx.node.id = some node) {world after : World}
    {e : BlockError} :
    let look := world.state.lookup ctx.env
    let text := Field.text node.content look
    store ctx world = (.error e, after) ↔
      Fault text (Field.json node.content look "value") (Template.render look (text "element")) e ∧
        after = world := by
  intro look text
  have hstore : store ctx world = _ := store_eq hnode world
  rw [hstore]
  constructor
  · intro hfailed
    split at hfailed
    · next hunnamed =>
      cases hfailed
      exact ⟨.unnamed hunnamed, rfl⟩
    · next hnamed =>
      split at hfailed
      · next hvalue =>
        cases hfailed
        obtain ⟨htype, hjson⟩ := value_eq_error_iff.mp hvalue
        obtain ⟨message, rfl⟩ := Field.json_eq_error hjson
        exact ⟨.unread hnamed htype hjson, rfl⟩
      · next stored hvalue =>
        split at hfailed
        · next hastray =>
          cases hfailed
          exact ⟨.astray hnamed (exists_value_eq_ok_iff.mp ⟨stored, hvalue⟩)
            (Template.empty_mem_names_iff.mp hastray), rfl⟩
        · cases hfailed
  · rintro ⟨hfault, rfl⟩
    cases hfault with
    | unnamed hunnamed => rw [if_pos hunnamed]
    | unread hnamed htype hjson =>
      rw [if_neg hnamed, value_eq_error_iff.mpr ⟨htype, hjson⟩]
    | astray hnamed hread hpath =>
      obtain ⟨stored, hvalue⟩ := exists_value_eq_ok_iff.mpr hread
      have hastray : "" ∈ path node.content look := Template.empty_mem_names_iff.mpr hpath
      rw [if_neg hnamed, hvalue]
      exact if_pos hastray

end SetState

namespace ForEach

/-- Why a component cannot run its branch for each element, given what its items are read as, and
the world that the reason leaves behind. -/
inductive Fault (items : Except BlockError Json) (base : Environment)
    (pool : List Environment → Step World FlowError (List Json)) (world : World) :
    BlockError → World → Prop where
  | unread {message : String} (hitems : items = .error (.evaluation "items" message)) :
      Fault items base pool world (.evaluation "items" message) world
  | scalar {value : Json} (hitems : items = .ok value) (hlist : ∀ xs, value ≠ .list xs)
      (hobject : ∀ fields, value ≠ .object fields) :
      Fault items base pool world
        (.validation ("Items must be a list or dictionary, got " ++ kind value)) world
  | broken {value : Json} {envs : List Environment} {e : FlowError} {after : World}
      (hitems : items = .ok value) (hlist : value ≠ .list []) (hobject : value ≠ .object [])
      (henvs : envs? base value = some envs) (hpool : pool envs world = (.error e, after)) :
      Fault items base pool world (.branch e) after

variable {ctx : Context} {world after : World} {items : Except BlockError Json} {e : BlockError}

/-- Only lists and objects have elements to repeat anything for. -/
theorem envs?_eq_none {base : Environment} {value : Json} (h : envs? base value = none) :
    (∀ xs, value ≠ .list xs) ∧ ∀ fields, value ≠ .object fields := by
  constructor <;>
  · rintro _ rfl
    cases h

/-- A pool over no elements does not fail, so it is no reason. -/
theorem runItems_eq_error_iff (hitems : ctx.fieldJson "items" world = Step.ofExcept items world)
    (hread : ∀ found, items = .error found → ∃ message, found = .evaluation "items" message)
    (hempty : ctx.branches.pool ctx.node.id loopLabel [] world = (.ok [], world)) :
    runItems ctx world = (.error e, after) ↔
      Fault items ctx.env (ctx.branches.pool ctx.node.id loopLabel) world e after := by
  constructor
  · intro hfailed
    cases items with
    | error found =>
      have hrun : runItems ctx world = (.error found, world) := Step.bind_error hitems
      cases hrun.symm.trans hfailed
      obtain ⟨message, rfl⟩ := hread _ rfl
      exact .unread rfl
    | ok value =>
      cases henvs : envs? ctx.env value with
      | none =>
        obtain ⟨hlist, hobject⟩ := envs?_eq_none henvs
        cases (runItems_of_scalar hitems hlist hobject).symm.trans hfailed
        exact .scalar rfl hlist hobject
      | some envs =>
        rw [runItems_eq hitems henvs] at hfailed
        obtain ⟨original, hpool, rfl⟩ := Step.yield_eq_error_iff.mp hfailed
        have hsome : envs ≠ [] := by
          rintro rfl
          cases hempty.symm.trans hpool
        refine .broken rfl ?_ ?_ henvs hpool <;>
        · rintro rfl
          exact hsome (Option.some.inj henvs).symm
  · intro hfault
    cases hfault with
    | unread hfound =>
      subst hfound
      exact Step.bind_error hitems
    | scalar hvalue hlist hobject =>
      subst hvalue
      exact runItems_of_scalar hitems hlist hobject
    | broken hvalue _ _ henvs hpool =>
      subst hvalue
      rw [runItems_eq hitems henvs]
      exact Step.yield_eq_error_iff.mpr ⟨_, hpool, rfl⟩

/-- Only a pool that does not end keeps the block from ending. -/
theorem runItems_completes (hitems : ctx.fieldJson "items" world = Step.ofExcept items world)
    (hpool : ∀ value envs, items = .ok value → envs? ctx.env value = some envs →
      (ctx.branches.pool ctx.node.id loopLabel envs world).1.Completes) :
    (runItems ctx world).1.Completes := by
  cases items with
  | error found =>
    rw [show runItems ctx world = (.error found, world) from Step.bind_error hitems]
    trivial
  | ok value =>
    cases henvs : envs? ctx.env value with
    | none =>
      obtain ⟨hlist, hobject⟩ := envs?_eq_none henvs
      rw [runItems_of_scalar hitems hlist hobject]
      trivial
    | some envs =>
      rw [runItems_eq hitems henvs]
      exact Step.completes_yield.mpr (hpool value envs rfl henvs)

end ForEach

/-- A component whose fields can be looked up is run by each of the standard blocks in a way that its
fields decide. All of them can be read as text, and what cannot be read as JSON is an evaluation
error. Logging a message and returning a value never fail; the value returned is what the field
yields as JSON, or else its text. Any other standard block fails just for the reasons there are for
it, with the conventional outcome and without a result, and ends if the pool that it waits for
does. -/
theorem Engine.standardBlocks_fail_iff (engine : Engine) (depth : Nat) (env : Environment)
    (world : World) {node found : Node} (hfound : engine.tree.get? node.id = some found) :
    let ctx := engine.context (engine.branches (depth + 1)) node env
    let read := Field.evaluate engine.tree world.state env (Instance.pathOf node.id)
    let pool := engine.runPool (engine.branches depth) node.id ForEach.loopLabel
    ∃ text : String → String,
      (∀ key, read key false "" = .ok (.text (text key))) ∧
      (∀ key default e, read key true default = .error e →
        ∃ message, e = .evaluation key message) ∧
      LogMessage.block ctx world =
        (.ok { outcome? := some "success", result := .text (text "message") }, world) ∧
      (∃ value,
        (read "value" true "null" = .ok value ∨
          (∃ e, read "value" true "null" = .error e) ∧ value = .text (text "value")) ∧
        ReturnValue.block ctx world =
          (.ok { outcome? := some "success", result := value, returned? := some value }, world)) ∧
      ((ParseJson.block ctx world).1.Completes ∧ ∀ failure after,
        ParseJson.block ctx world = (.error failure, after) ↔
          ∃ e, (∃ error, Json.parse (text "plainText") = .error error ∧
              e = .executionFailed ("JSON parse error: " ++ error.message)) ∧
            after = world ∧ failure = { error := e, outcome? := some "error", result? := none }) ∧
      ((SetState.block ctx world).1.Completes ∧ ∀ failure after,
        SetState.block ctx world = (.error failure, after) ↔
          ∃ e, SetState.Fault text (read "value" true "\x7b\x7d")
              (Template.render (world.state.lookup env) (text "element")) e ∧
            after = world ∧ failure = { error := e, outcome? := some "error", result? := none }) ∧
      ((∀ value envs, read "items" true "\x7b\x7d" = .ok value → ForEach.envs? env value = some envs →
          (pool envs world).1.Completes) → (ForEach.block ctx world).1.Completes) ∧
      ∀ failure after, ForEach.block ctx world = (.error failure, after) ↔
        ∃ e, ForEach.Fault (read "items" true "\x7b\x7d") env pool world e after ∧
          failure = { error := e, outcome? := some "error", result? := none } := by
  intro ctx read pool
  have hnode : ctx.tree.get? ctx.node.id = some found := hfound
  have hitems : ctx.fieldJson "items" world =
      Step.ofExcept (read "items" true "\x7b\x7d") world := rfl
  have hempty : ctx.branches.pool ctx.node.id ForEach.loopLabel [] world = (.ok [], world) := rfl
  refine ⟨Field.text found.content (world.state.lookup env),
    Field.evaluate_text hfound world.state env, fun _ _ _ => Field.evaluate_eq_error,
    LogMessage.block_eq hnode world, ?_, ⟨ParseJson.block_total ctx world, fun failure after => ?_⟩,
    ⟨SetState.block_total ctx world, fun failure after => ?_⟩, fun hpool => ?_,
    fun failure after => ?_⟩
  · obtain ⟨value, hvalue, hread⟩ := ReturnValue.readValue_eq hnode world
    refine ⟨value, hvalue, ?_⟩
    rw [ReturnValue.block, Step.bind_ok (Step.mapError_of_ok hread)]
    rfl
  · refine Step.yield_eq_error_iff.trans (exists_congr fun e => ?_)
    rw [ParseJson.readValue_eq_error_iff hnode, and_assoc]
    rfl
  · refine Step.yield_eq_error_iff.trans (exists_congr fun e => ?_)
    refine (and_congr_left' (SetState.store_eq_error_iff hnode)).trans ?_
    rw [and_assoc, ← Field.evaluate_json hfound]
    rfl
  · exact Step.completes_yield.mpr (ForEach.runItems_completes hitems hpool)
  · refine Step.yield_eq_error_iff.trans (exists_congr fun e => ?_)
    rw [ForEach.runItems_eq_error_iff hitems (fun _ => Field.evaluate_eq_error) hempty]
    rfl

namespace Sample

/-- Each of the blocks that can fail does on its fields. -/
def stumbling : Node :=
  { id := "n", type := SetState.type, parent? := some "w"
    content :=
      [("plainText", .text "\x7b"), ("element", .text "a..b"), ("valueType", .text "JSON"),
        ("value", .text "[@\x7buser\x7d,"), ("items", .list [.int 1])]
    outs := [⟨ForEach.loopLabel, "nowhere"⟩] }

/-- Looks up the fields of the component. -/
def stumblingEngine : Engine where
  registry := .standard
  tree := { nodes := [stumbling], distinct := by simp }

def stumblingEnv : Environment := .ofList [("user", .text "Ann")]

/-- What a field of the component is read as. -/
def stumblingRead : (key : String) → (asJson : Bool) → (default : String) →
    Except BlockError Json :=
  Field.evaluate stumblingEngine.tree [] stumblingEnv (Instance.pathOf stumbling.id)

/-- The text of a field of the component. -/
def stumblingText : String → String :=
  Field.text stumbling.content (State.lookup [] stumblingEnv)

theorem stumblingText_eq :
    stumblingText "plainText" = "\x7b" ∧ stumblingText "element" = "a..b" ∧
      stumblingText "valueType" = "JSON" ∧ stumblingText "value" = "[Ann," := by
  decide +kernel

theorem stumblingRead_items :
    stumblingRead "items" true "\x7b\x7d" = .ok (.list [.int 1]) := rfl

theorem exists_error_of_isOk {ε α : Type} {result : Except ε α} (h : result.isOk = false) :
    ∃ e, result = .error e := by
  cases result with
  | error e => exact ⟨e, rfl⟩
  | ok value => cases h

theorem stumblingRead_value (default : String) (h : default = "null" ∨ default = "\x7b\x7d") :
    ∃ e, stumblingRead "value" true default = .error e := by
  refine exists_error_of_isOk ?_
  obtain rfl | rfl := h <;> decide +kernel

end Sample

/-- The value is looked at before the path that the element leads to. As text it can be returned. -/
theorem Engine.standardBlocks_fail_iff_stumbling :
    ∃ (ctx : Context) (error : Json.Error) (message : String),
      Sample.stumblingEngine.tree.get? Sample.stumbling.id = some Sample.stumbling ∧
      ctx = Sample.stumblingEngine.context (Sample.stumblingEngine.branches 1) Sample.stumbling
        Sample.stumblingEnv ∧
      ReturnValue.block ctx {} =
        (.ok { outcome? := some "success", result := .text "[Ann,"
               returned? := some (.text "[Ann,") }, {}) ∧
      ParseJson.block ctx {} =
        (.error { error := .executionFailed ("JSON parse error: " ++ error.message)
                  outcome? := some "error", result? := none }, {}) ∧
      SetState.block ctx {} =
        (.error { error := .evaluation "value" message
                  outcome? := some "error", result? := none }, {}) ∧
      ForEach.block ctx {} =
        (.error { error := .branch (.graph (.danglingEdge "n" "nowhere"))
                  outcome? := some "error", result? := none }, {}) := by
  have hfound : Sample.stumblingEngine.tree.get? Sample.stumbling.id = some Sample.stumbling := rfl
  obtain ⟨text, htext, hmessage, _, ⟨value, hvalue, hreturn⟩, ⟨_, hparse⟩, ⟨_, hset⟩, _, hloop⟩ :=
    Engine.standardBlocks_fail_iff Sample.stumblingEngine 0 Sample.stumblingEnv {} hfound
  obtain rfl : text = Sample.stumblingText := funext fun key =>
    Json.text.inj (Except.ok.inj ((htext key).symm.trans (Field.evaluate_text hfound _ _ key)))
  obtain ⟨hplain, helement, htype, hwritten⟩ := Sample.stumblingText_eq
  have hrejected : (Json.parse "\x7b").isOk = false := by decide +kernel
  obtain ⟨error, herror⟩ := Sample.exists_error_of_isOk hrejected
  obtain ⟨_, hunread⟩ := Sample.stumblingRead_value "\x7b\x7d" (Or.inr rfl)
  obtain ⟨message, rfl⟩ := hmessage _ _ _ hunread
  refine ⟨_, error, message, hfound, rfl, ?_, ?_, ?_, ?_⟩
  · obtain ⟨_, hnull⟩ := Sample.stumblingRead_value "null" (Or.inl rfl)
    obtain hok | ⟨_, rfl⟩ := hvalue
    · cases hnull.symm.trans hok
    · rw [hwritten] at hreturn
      exact hreturn
  · refine (hparse _ _).mpr ⟨_, ⟨error, ?_, rfl⟩, rfl, rfl⟩
    rw [hplain, herror]
  · have hnamed : Sample.stumblingText "element" ≠ "" := by
      rw [helement]
      decide
    exact (hset _ _).mpr ⟨_, .unread hnamed htype hunread, rfl, rfl⟩
  · exact (hloop _ _).mpr ⟨_, .broken Sample.stumblingRead_items nofun nofun rfl rfl, rfl⟩

end Workflow
