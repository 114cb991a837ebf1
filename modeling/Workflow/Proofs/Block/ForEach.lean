import Workflow.Block.Standard.ForEach
import Workflow.Proofs.Environment
import Workflow.Proofs.Run.Branch
import Workflow.Proofs.Run.Pool
import Workflow.Proofs.Run.Rules

namespace Workflow.ForEach

/-- The environments of the runs, if the value has elements. -/
def envs? (base : Environment) : Json → Option (List Environment)
  | .list items => some (listEnvs base 0 items)
  | .object fields => some (objectEnvs base fields)
  | _ => none

/-- The values in the shape of the elements. -/
def shaped : Json → List Json → Json
  | .list _, values => .list values
  | .object fields, values => .object (Bindings.ofList ((Bindings.keys fields).zip values))
  | other, _ => other

/-- The environments for the elements of a list differ in the element and in its position. -/
theorem listEnvs_eq_mapIdx (base : Environment) (first : Nat) (items : List Json) :
    listEnvs base first items =
      items.mapIdx fun i item => itemEnv base (.int ((first + i : Nat) : Int)) item := by
  induction items generalizing first with
  | nil => rfl
  | cons item rest ih =>
    rw [listEnvs, List.mapIdx_cons, ih]
    congr 1
    apply List.mapIdx_eq_mapIdx_iff.mpr
    intro i hi
    rw [Nat.add_right_comm, Nat.add_assoc]

/-- One value for each member gives an object with the same keys in the same order. -/
theorem ofList_zip_keys {fields : Bindings Json} (hkeys : fields.keys.Nodup) {values : List Json}
    {value : Nat → Json} (hvalues : values = (List.range fields.length).map value) :
    Bindings.ofList (fields.keys.zip values) =
      fields.mapIdx fun i field => (field.1, value i) := by
  have hlength : fields.keys.length = values.length := by simp [hvalues, Bindings.keys]
  rw [Bindings.ofList_of_nodup (by rwa [List.map_fst_zip (Nat.le_of_eq hlength)])]
  apply List.ext_getElem (by simp [hvalues, Bindings.keys])
  intro i _ _
  simp [hvalues, Bindings.keys]

section Block

variable {ctx : Context} {world after : World} {items : Json} {envs : List Environment}

/-- The environments of the runs are handed to a pool, and its values are put in shape. -/
theorem runItems_eq (hitems : ctx.fieldJson "items" world = (.ok items, world))
    (henvs : envs? ctx.env items = some envs) :
    runItems ctx world =
      (ctx.runPool loopLabel envs >>= fun values => Step.ok (shaped items values)) world := by
  rw [runItems, Step.bind_ok hitems]
  cases items with
  | list xs =>
    obtain rfl := Option.some.inj henvs
    rfl
  | object fields =>
    obtain rfl := Option.some.inj henvs
    rfl
  | _ => cases henvs

/-- A pool that ends well gives the result, in the shape of the elements. -/
theorem block_ok {values : List Json} (hitems : ctx.fieldJson "items" world = (.ok items, world))
    (henvs : envs? ctx.env items = some envs)
    (hpool : ctx.branches.pool ctx.node.id loopLabel envs world = (.ok values, after)) :
    block ctx world = (.ok (.success (shaped items values)), after) := by
  have hrun : ctx.runPool loopLabel envs world = (.ok values, after) := by
    simp only [Context.runPool, Step.mapError, hpool]
  have hresult := runItems_eq hitems henvs
  rw [Step.bind_ok hrun] at hresult
  rw [block, Step.bind_ok (Step.mapError_of_ok hresult)]
  rfl

theorem block_error {e : BlockError} (hrun : runItems ctx world = (.error e, after)) :
    block ctx world = (.error (.ofError e), after) :=
  Step.bind_error (Step.mapError_of_error hrun)

/-- The error of a pool is passed on as the error of a nested run. -/
theorem block_of_pool_error {e : FlowError}
    (hitems : ctx.fieldJson "items" world = (.ok items, world))
    (henvs : envs? ctx.env items = some envs)
    (hpool : ctx.branches.pool ctx.node.id loopLabel envs world = (.error e, after)) :
    block ctx world = (.error (.ofError (.branch e)), after) := by
  have hrun : ctx.runPool loopLabel envs world = (.error (.branch e), after) := by
    simp only [Context.runPool, Step.mapError, hpool]
  apply block_error
  rw [runItems_eq hitems henvs]
  exact Step.bind_error hrun

/-- The block changes what its pool does. -/
theorem block_world (hitems : ctx.fieldJson "items" world = (.ok items, world))
    (henvs : envs? ctx.env items = some envs) :
    (block ctx world).2 = (ctx.branches.pool ctx.node.id loopLabel envs world).2 := by
  rw [block, Step.bind_snd (fun _ _ => rfl), Step.mapError_snd, runItems_eq hitems henvs,
    Step.bind_snd (fun _ _ => rfl), Context.runPool, Step.mapError_snd]

/-- A value without elements is rejected before anything runs. -/
theorem runItems_of_scalar (hitems : ctx.fieldJson "items" world = (.ok items, world))
    (hlist : ∀ xs, items ≠ .list xs) (hobject : ∀ fields, items ≠ .object fields) :
    runItems ctx world =
      (.error (.validation ("Items must be a list or dictionary, got " ++ kind items)), world) := by
  rw [runItems, Step.bind_ok hitems]
  cases items with
  | list xs => exact absurd rfl (hlist xs)
  | object fields => exact absurd rfl (hobject fields)
  | _ => rfl

/-- The block fails on a value without elements, and says of what kind it is. -/
theorem block_of_scalar (hitems : ctx.fieldJson "items" world = (.ok items, world))
    (hlist : ∀ xs, items ≠ .list xs) (hobject : ∀ fields, items ≠ .object fields) :
    block ctx world =
      (.error (.ofError (.validation ("Items must be a list or dictionary, got " ++ kind items))),
        world) :=
  block_error (runItems_of_scalar hitems hlist hobject)

end Block

/-- A for-each component runs exactly what its `loop` edges lead to, once for each element and each
time in a fresh scope, in its own environment with the element and its position or key, and in the
world that the runs before leave. If none of them fails, it succeeds with their values in the shape
of the elements. The first one that fails, or an edge that leads nowhere, makes the component fail
without a result. So does a value that has no elements or cannot be read; then nothing runs. -/
theorem block_repeats (engine : Engine) (depth : Nat) (env : Environment) (world : World)
    {node : Node} {run : Environment → Step World FlowError (Option Json)}
    {items : Except BlockError Json} (hnode : engine.tree.get? node.id = some node)
    (hrun : run = engine.runBranch (engine.branches depth) node.id loopLabel)
    (hitems : items = Field.evaluate engine.tree world.state env (Instance.pathOf node.id) "items"
      true "{}") :
    ((∀ nodes, (node.targets loopLabel).map engine.tree.get? = nodes.map some →
        run = engine.runFresh (engine.branches depth) nodes) ∧
      ∀ target ∈ node.targets loopLabel, engine.tree.get? target = none →
        ∃ missing, ∀ env world,
          run env world = (.error (.graph (.danglingEdge node.id missing)), world)) ∧
    (∀ (xs : List Json) (envs : List Environment) (values? : Nat → Option Json),
      items = .ok (.list xs) →
      envs = xs.mapIdx (fun i x => env.extend [("itemId", .int i), ("item", x)]) →
      (∀ i own, envs[i]? = some own →
        (run own (worldAfter run (envs.take i) world)).1 = .ok (values? i)) →
      block (engine.context (engine.branches (depth + 1)) node env) world =
        (.ok { outcome? := some "success"
               result := .list ((List.range xs.length).map fun i => (values? i).getD .null) },
          worldAfter run envs world)) ∧
    (∀ (fields : Bindings Json) (envs : List Environment) (values? : Nat → Option Json),
      items = .ok (.object fields) → fields.keys.Nodup →
      envs = fields.map (fun field =>
        env.extend [("itemId", .text field.1), ("item", field.2)]) →
      (∀ i own, envs[i]? = some own →
        (run own (worldAfter run (envs.take i) world)).1 = .ok (values? i)) →
      block (engine.context (engine.branches (depth + 1)) node env) world =
        (.ok { outcome? := some "success"
               result := .object (fields.mapIdx fun i field =>
                 (field.1, (values? i).getD .null)) },
          worldAfter run envs world)) ∧
    (∀ (value : Json) (envs : List Environment) (i : Nat) (own : Environment) (e : FlowError)
      (after : World), items = .ok value → envs? env value = some envs → envs[i]? = some own →
      (∀ j < i, ∀ earlier, envs[j]? = some earlier →
        ∃ value?, (run earlier (worldAfter run (envs.take j) world)).1 = .ok value?) →
      (run own).catchCrash .join (worldAfter run (envs.take i) world) = (.error e, after) →
      block (engine.context (engine.branches (depth + 1)) node env) world =
        (.error { error := .branch e, outcome? := some "error", result? := none }, after)) ∧
    (∀ value, items = .ok value → (∀ xs, value ≠ .list xs) → (∀ fields, value ≠ .object fields) →
      block (engine.context (engine.branches (depth + 1)) node env) world =
        (.error
          { error := .validation ("Items must be a list or dictionary, got " ++ kind value)
            outcome? := some "error", result? := none }, world)) ∧
    ∀ e, items = .error e →
      block (engine.context (engine.branches (depth + 1)) node env) world =
        (.error { error := e, outcome? := some "error", result? := none }, world) := by
  subst hrun
  have hfield : (engine.context (engine.branches (depth + 1)) node env).fieldJson "items" world =
      Step.ofExcept items world := by
    rw [hitems]
    rfl
  -- A dangling edge fails the first run, so the pool can be read as repeating one run throughout.
  have hpool : ∀ envs, (engine.context (engine.branches (depth + 1)) node env).branches.pool node.id
      loopLabel envs world =
        iterate (engine.runBranch (engine.branches depth) node.id loopLabel) envs world := by
    intro envs
    rw [← Engine.runPool_eq_iterate]
    rfl
  refine ⟨⟨?_, ?_⟩, ?_, ?_, ?_, ?_, ?_⟩
  · intro nodes htargets
    funext own
    rw [Engine.runBranch, Tree.branch_eq_ok hnode htargets]
  · intro target htarget hmissing
    obtain ⟨missing, herror⟩ := Tree.branch_eq_error hnode htarget hmissing
    refine ⟨missing, fun own world => ?_⟩
    rw [Engine.runBranch, herror]
    rfl
  · rintro xs envs values? rfl henvs hvalues
    have hlisted : envs? env (.list xs) = some envs := by
      rw [envs?, listEnvs_eq_mapIdx, henvs]
      simp only [Nat.zero_add]
      rfl
    have hlength : envs.length = xs.length := by rw [henvs, List.length_mapIdx]
    have hended := (hpool envs).trans (iterate_ok hvalues)
    rw [hlength] at hended
    exact block_ok hfield hlisted hended
  · rintro fields envs values? rfl hkeys henvs hvalues
    have hlength : envs.length = fields.length := by rw [henvs, List.length_map]
    have hended := (hpool envs).trans (iterate_ok hvalues)
    rw [hlength] at hended
    have hblock := block_ok hfield (congrArg some henvs.symm) hended
    rw [hblock, shaped, ofList_zip_keys hkeys rfl]
    rfl
  · rintro value envs i own e after rfl henvs hown hbefore hfail
    exact block_of_pool_error hfield henvs ((hpool envs).trans (iterate_error hown hbefore hfail))
  · rintro value rfl hlist hobject
    exact block_of_scalar hfield hlist hobject
  · rintro e rfl
    apply block_error
    rw [runItems]
    exact Step.bind_error hfield

/-- The second run of the branch starts from the world that the first one leaves. -/
theorem block_repeats_repeating :
    ∃ (world : World),
      Sample.repeater.tree.get? Sample.loop.id = some Sample.loop ∧
      block (Sample.repeater.context (Sample.repeater.branches 1) Sample.loop .empty) {} =
        (.ok { outcome? := some "success", result := .list [.text "x", .text "y"] }, world) := by
  have hnode : Sample.repeater.tree.get? Sample.loop.id = some Sample.loop := rfl
  obtain ⟨_, hlist, _⟩ := block_repeats Sample.repeater.toEngine 0 .empty {} hnode rfl rfl
  have hblock := hlist [.text "x", .text "y"] _ (fun i => [Json.text "x", Json.text "y"][i]?)
    (by rfl) rfl (by
      intro i own hown
      rcases i with _ | _ | i
      · obtain rfl := Option.some.inj hown
        rfl
      · obtain rfl := Option.some.inj hown
        rfl
      · cases hown)
  exact ⟨_, hnode, hblock⟩

end Workflow.ForEach
