import Workflow.Block.Standard
import Workflow.Proofs.Step

namespace Workflow

variable {σ ε φ α β : Type}

/-- The step leaves the state as it was, however it ends. -/
def Step.Reads (step : Step σ ε α) : Prop := ∀ s, (step s).2 = s

namespace Step.Reads

theorem pure (value : α) : (Pure.pure value : Step σ ε α).Reads := fun _ => rfl

theorem error (e : ε) : (Step.error e : Step σ ε α).Reads := fun _ => rfl

theorem ofExcept (result : Except ε α) : (Step.ofExcept result : Step σ ε α).Reads := by
  intro s
  cases result <;> rfl

theorem mapError {step : Step σ ε α} {f : ε → φ} (hstep : step.Reads) :
    (step.mapError f).Reads := by
  intro s
  have hkept := hstep s
  obtain ⟨⟨ending, t⟩, hrun⟩ : ∃ run, step s = run := ⟨_, rfl⟩
  rw [hrun] at hkept
  simp only [Step.mapError, hrun]
  cases ending <;> exact hkept

/-- Two steps that only read make one that only reads. -/
theorem bind {step : Step σ ε α} {next : α → Step σ ε β} (hstep : step.Reads)
    (hnext : ∀ value, (next value).Reads) : (step >>= next).Reads := by
  intro s
  have hkept := hstep s
  obtain ⟨⟨ending, t⟩, hrun⟩ : ∃ run, step s = run := ⟨_, rfl⟩
  rw [hrun] at hkept
  obtain rfl : t = s := hkept
  obtain ⟨value, rfl⟩ | ⟨halt, rfl⟩ := ending.ok_or_halt
  · rw [bind_ok hrun]
    exact hnext value t
  · rw [bind_halt hrun]

end Step.Reads

namespace Context

variable (ctx : Context)

theorem fieldOr_reads (key : String) (asJson : Bool) (default : String) :
    (ctx.fieldOr key asJson default).Reads := fun world => Step.Reads.ofExcept _ world

theorem field_reads (key : String) : (ctx.field key).Reads :=
  .bind (ctx.fieldOr_reads key false "") fun _ => .pure _

theorem fieldJson_reads (key : String) : (ctx.fieldJson key).Reads :=
  ctx.fieldOr_reads key true "{}"

end Context

theorem LogMessage.block_reads (ctx : Context) : (block ctx).Reads :=
  .bind (.mapError (ctx.field_reads _)) fun _ => .bind (.mapError (ctx.field_reads _)) fun _ =>
    .pure _

theorem ParseJson.block_reads (ctx : Context) : (block ctx).Reads := by
  refine .bind (.mapError (.bind (ctx.field_reads _) fun text => ?_)) fun _ => .pure _
  split
  · exact .pure _
  · exact .error _

theorem ReturnValue.readValue_reads (ctx : Context) : (readValue ctx).Reads := by
  intro world
  have hkept := ctx.fieldOr_reads "value" true "null" world
  unfold readValue
  split
  · next e message after hfield =>
    rw [hfield] at hkept
    obtain rfl : after = world := hkept
    exact Step.Reads.bind (ctx.field_reads _) (fun _ => .pure _) after
  · exact hkept

theorem ReturnValue.block_reads (ctx : Context) : (block ctx).Reads :=
  .bind (.mapError (readValue_reads ctx)) fun _ => .pure _

theorem SetState.readValue_reads (ctx : Context) : (readValue ctx).Reads := by
  refine .bind (ctx.field_reads _) fun valueType => ?_
  split
  · exact ctx.fieldJson_reads _
  · exact .bind (ctx.field_reads _) fun _ => .pure _

namespace Template

/-- A path has an empty name where there are only blanks between two dots. -/
theorem empty_mem_names_iff {path : List Char} :
    "" ∈ names path ↔ ∃ piece ∈ Text.pieces '.' path, Text.trim piece = [] := by
  simp [names]

variable {look other : List Char → Json}

/-- The text of a template, in which each path is replaced once by the text of what it leads to. -/
def render (look : List Char → Json) (template : String) : String :=
  fill false look (parts template.toList)

/-- What a template yields depends on nothing but what its paths lead to. -/
theorem fill_congr (asJson : Bool) {pieces : List Part}
    (h : ∀ chars, .path chars ∈ pieces → look chars = other chars) :
    fill asJson look pieces = fill asJson other pieces := by
  have hparts : pieces.map (Part.fill asJson look) = pieces.map (Part.fill asJson other) := by
    refine List.map_congr_left fun piece hpiece => ?_
    cases piece with
    | text chars => rfl
    | path chars => rw [Part.fill, Part.fill, h chars hpiece]
  rw [fill, fill, List.flatMap_def, List.flatMap_def, hparts]

/-- A template begins with the text before its first expression and with that expression. -/
theorem parts_of_cut {s front opened path rest : List Char}
    (hopen : cutOpening s = some (front, opened)) (hclose : cutClosing opened = some (path, rest)) :
    parts s = textPart front ++ .path (Text.trim path) :: parts rest := by
  rw [parts]
  split
  · next hnone => cases hopen.symm.trans hnone
  · next found behind hfound =>
    obtain ⟨rfl, rfl⟩ := Prod.mk.inj (Option.some.inj (hfound.symm.trans hopen))
    split
    · next hnone => cases hclose.symm.trans hnone
    · next inner after hinner =>
      obtain ⟨rfl, rfl⟩ := Prod.mk.inj (Option.some.inj (hinner.symm.trans hclose))
      rfl

/-- A template without expressions is one piece of text. -/
theorem parts_of_no_path {s : List Char} (h : ∀ chars, .path chars ∉ parts s) :
    parts s = textPart s := by
  rw [parts]
  split
  · rfl
  · next front opened hopen =>
    split
    · rfl
    · next path rest hclose =>
      have hpath := h (Text.trim path)
      rw [parts_of_cut hopen hclose] at hpath
      exact absurd (List.mem_append_right _ List.mem_cons_self) hpath

/-- A template without expressions stands for itself. -/
theorem render_of_no_path {template : String}
    (h : ∀ chars, .path chars ∉ parts template.toList) : render look template = template := by
  have htext : (textPart template.toList).flatMap (Part.fill false look) = template.toList := by
    cases template.toList <;> simp [textPart, Part.fill]
  rw [render, parts_of_no_path h, fill, htext, String.ofList_toList]

end Template

namespace Field

variable {look other : List Char → Json} {content : Bindings Json} {key : String}

/-- The pieces of a field's template, if the field is one. -/
def pieces (content : Bindings Json) (key : String) : List Template.Part :=
  match source content key "" with
  | .inl template => Template.parts template.toList
  | .inr _ => []

/-- The text of a field whose paths are looked up with `look`. A missing field is empty. -/
def text (content : Bindings Json) (look : List Char → Json) (key : String) : String :=
  match source content key "" with
  | .inl template => Template.render look template
  | .inr value => Json.plain value

/-- The value of a field that is read as JSON. A missing field is the empty object. -/
def json (content : Bindings Json) (look : List Char → Json) (key : String) :
    Except BlockError Json :=
  match source content key "\x7b\x7d" with
  | .inl template => ofTemplate look key template true
  | .inr value => .ok value

/-- The text of a field depends only on what the paths in its template lead to. -/
theorem text_congr (h : ∀ chars, .path chars ∈ pieces content key → look chars = other chars) :
    text content look key = text content other key := by
  unfold pieces at h
  unfold text
  split
  · next template hsource =>
    rw [hsource] at h
    exact Template.fill_congr false h
  · rfl

/-- What a template is read as depends only on what its paths lead to. -/
theorem ofTemplate_congr {template : String} {asJson : Bool}
    (h : ∀ chars, .path chars ∈ Template.parts template.toList → look chars = other chars) :
    ofTemplate look key template asJson = ofTemplate other key template asJson := by
  have hfill := fun asJson => Template.fill_congr asJson h
  simp only [ofTemplate, hfill]
  cases asJson with
  | false => rfl
  | true =>
    simp only [if_true]
    split
    · next chars hparts =>
      rw [h chars (by rw [hparts]; exact List.mem_cons_self)]
    · rfl

/-- A field that is read as JSON depends only on what the paths in its template lead to. -/
theorem json_congr (h : ∀ chars, .path chars ∈ pieces content key → look chars = other chars) :
    json content look key = json content other key := by
  have hparts : Template.parts "\x7b\x7d".toList = [.text "\x7b\x7d".toList] := by
    decide +kernel
  have hempty : ofTemplate look key "\x7b\x7d" true = ofTemplate other key "\x7b\x7d" true := by
    refine ofTemplate_congr fun chars hchars => ?_
    rw [hparts, List.mem_singleton] at hchars
    cases hchars
  unfold pieces at h
  unfold json
  cases hfind : Bindings.find? content key with
  | none => simpa only [source, hfind] using hempty
  | some value =>
    cases value with
    | null => simpa only [source, hfind] using hempty
    | text s =>
      simp only [source, hfind] at h ⊢
      split
      · exact hempty
      · next hs =>
        rw [if_neg hs] at h
        exact ofTemplate_congr h
    | _ => simp only [source, hfind]

theorem evaluate_text {tree : Tree} {node : Node} {id : String} (hnode : tree.get? id = some node)
    (state : State) (env : Environment) (key : String) :
    evaluate tree state env (Instance.pathOf id) key false "" =
      .ok (.text (text node.content (state.lookup env) key)) := by
  simp only [evaluate, Instance.pathOf, List.getLast?_singleton, hnode, text]
  cases source node.content key "" <;> rfl

theorem evaluate_json {tree : Tree} {node : Node} {id : String} (hnode : tree.get? id = some node)
    (state : State) (env : Environment) (key : String) :
    evaluate tree state env (Instance.pathOf id) key true "\x7b\x7d" =
      json node.content (state.lookup env) key := by
  simp only [evaluate, Instance.pathOf, List.getLast?_singleton, hnode, json]
  cases source node.content key "\x7b\x7d" <;> rfl

/-- A template that is no JSON is named by the error. -/
theorem ofTemplate_eq_error {template : String} {asJson : Bool} {e : BlockError}
    (h : ofTemplate look key template asJson = .error e) :
    ∃ message, e = .evaluation key message := by
  cases asJson with
  | false => cases h
  | true =>
    simp only [ofTemplate, if_true] at h
    split at h
    · cases h
    · split at h
      · cases h
      · exact ⟨_, (Except.error.inj h).symm⟩

theorem json_eq_error {e : BlockError} (h : json content look key = .error e) :
    ∃ message, e = .evaluation key message := by
  unfold json at h
  split at h
  · exact ofTemplate_eq_error h
  · cases h

/-- A field that cannot be read is named by the error. -/
theorem evaluate_eq_error {tree : Tree} {state : State} {env : Environment} {path : List Instance}
    {asJson : Bool} {default : String} {e : BlockError}
    (h : evaluate tree state env path key asJson default = .error e) :
    ∃ message, e = .evaluation key message := by
  unfold evaluate at h
  split at h
  · exact ⟨_, (Except.error.inj h).symm⟩
  · split at h
    · exact ⟨_, (Except.error.inj h).symm⟩
    · split at h
      · exact ofTemplate_eq_error h
      · cases h

end Field

namespace Context

variable {ctx : Context} {node : Node}

/-- Every field of a component of the tree can be read as text. -/
theorem field_eq (hnode : ctx.tree.get? ctx.node.id = some node) (key : String) (world : World) :
    ctx.field key world =
      (.ok (Field.text node.content (world.state.lookup ctx.env) key), world) := by
  have hfield : ctx.fieldOr key false "" world =
      (.ok (.text (Field.text node.content (world.state.lookup ctx.env) key)), world) := by
    rw [fieldOr, path, Field.evaluate_text hnode]
    rfl
  rw [field, Step.bind_ok hfield]
  rfl

/-- A field of a component of the tree is read as JSON without a change to the world. -/
theorem fieldJson_eq (hnode : ctx.tree.get? ctx.node.id = some node) (key : String)
    (world : World) :
    ctx.fieldJson key world =
      Step.ofExcept (Field.json node.content (world.state.lookup ctx.env) key) world := by
  rw [fieldJson, fieldOr, path, Field.evaluate_json hnode]

/-- A path with an empty name is refused; to any other path the value is written. -/
theorem setState_eq (ctx : Context) (world : World) (expression : String) (value : Json) :
    ctx.setState expression value world =
      let path := Template.render (world.state.lookup ctx.env) expression
      if "" ∈ Template.names path.toList then
        (.error (.state ("invalid state path \"" ++ path ++ "\"")), world)
      else (.ok (), world.write ctx.node.id (Template.names path.toList) value) := by
  have htarget : world.state.target ctx.env expression =
      let path := Template.render (world.state.lookup ctx.env) expression
      if "" ∈ Template.names path.toList then
        .error (.state ("invalid state path \"" ++ path ++ "\""))
      else .ok (Template.names path.toList) := rfl
  simp only [setState, htarget]
  by_cases hinvalid :
      "" ∈ Template.names (Template.render (world.state.lookup ctx.env) expression).toList
  · simp only [if_pos hinvalid]
  · simp only [if_neg hinvalid]

end Context

end Workflow
