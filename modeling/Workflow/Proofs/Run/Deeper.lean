import Workflow.Proofs.Block.Tagged
import Workflow.Proofs.Run.Nested

namespace Workflow

variable {σ τ ε φ α β : Type}

/-- The second outcome is the first one, unless that gave up. -/
def Deepens (first second : Ending ε α × σ) : Prop := first.1 = .tooDeep ∨ second = first

theorem Deepens.refl (outcome : Ending ε α × σ) : Deepens outcome outcome := Or.inr rfl

/-- What is made of an outcome is still given up if that was. -/
theorem Deepens.map {first second : Ending ε α × σ} (h : Deepens first second)
    (f : Ending ε α × σ → Ending φ β × τ) (hf : ∀ s, (f (.tooDeep, s)).1 = .tooDeep) :
    Deepens (f first) (f second) := by
  obtain ⟨ending, s⟩ := first
  obtain hdeep | rfl := h
  · obtain rfl : ending = .tooDeep := hdeep
    exact Or.inl (hf s)
  · exact .refl _

/-- The second step does what the first one does, unless that gives up. -/
def Step.Deepens (first second : Step σ ε α) : Prop := ∀ s, Workflow.Deepens (first s) (second s)

namespace Step.Deepens

variable {first second : Step σ ε α}

theorem refl (step : Step σ ε α) : step.Deepens step := fun _ => .refl _

theorem of_eq (h : first = second) : first.Deepens second := h ▸ refl first

theorem giveUp (step : Step σ ε α) : Step.giveUp.Deepens step := fun _ => Or.inl rfl

/-- A chain of two steps gives up if one of them does, and otherwise each does what it did. -/
theorem bind {next other : α → Step σ ε β} (h : first.Deepens second)
    (hnext : ∀ value, (next value).Deepens (other value)) :
    (first >>= next).Deepens (second >>= other) := by
  intro s
  obtain ⟨⟨ending, t⟩, hfirst⟩ : ∃ result, first s = result := ⟨_, rfl⟩
  have hsecond := h s
  rw [hfirst] at hsecond
  obtain rfl | hsame := hsecond
  · have hhalted : first s = (Halt.tooDeep.ending, t) := hfirst
    rw [Step.bind_halt hhalted]
    exact Or.inl rfl
  · obtain ⟨value, rfl⟩ | ⟨halt, rfl⟩ := ending.ok_or_halt
    · rw [Step.bind_ok hfirst, Step.bind_ok hsame]
      exact hnext value t
    · right
      rw [Step.bind_halt hfirst, Step.bind_halt hsame]

theorem mapError (h : first.Deepens second) (f : ε → φ) :
    (first.mapError f).Deepens (second.mapError f) := fun s =>
  (h s).map (fun outcome => Step.mapError f (fun _ => outcome) s) fun _ => rfl

theorem catchCrash (h : first.Deepens second) (caught : String → ε) :
    (first.catchCrash caught).Deepens (second.catchCrash caught) := fun s =>
  (h s).map (fun outcome => Step.catchCrash caught (fun _ => outcome) s) fun _ => rfl

end Step.Deepens

/-- The second context is the first one, up to the tree, in which the component is the same, and up
to nested runs that may nest deeper. -/
structure Context.Deepens (first second : Context) : Prop where
  node : first.node = second.node
  env : first.env = second.env
  found : first.tree.get? first.node.id = second.tree.get? first.node.id
  pool : ∀ envs, (first.branches.pool first.node.id ForEach.loopLabel envs).Deepens
    (second.branches.pool first.node.id ForEach.loopLabel envs)

namespace Context.Deepens

variable {first second : Context}

/-- Fields are read alike. -/
theorem fieldOr_eq (h : first.Deepens second) : first.fieldOr = second.fieldOr := by
  obtain ⟨node, env, tree, branches⟩ := first
  obtain ⟨_, _, other, deeper⟩ := second
  obtain ⟨rfl, rfl, hfound, _⟩ := h
  funext key asJson default world
  simp only [fieldOr, path, Instance.pathOf, Field.evaluate, List.getLast?_singleton] at hfound ⊢
  rw [hfound]

/-- State is written alike. -/
theorem setState_eq (h : first.Deepens second) : first.setState = second.setState := by
  obtain ⟨node, env, tree, branches⟩ := first
  obtain ⟨_, _, other, deeper⟩ := second
  obtain ⟨rfl, rfl, _, _⟩ := h
  rfl

/-- A block repeats its branch alike. -/
theorem runPool (h : first.Deepens second) (envs : List Environment) :
    (first.runPool ForEach.loopLabel envs).Deepens (second.runPool ForEach.loopLabel envs) := by
  unfold Context.runPool
  rw [← h.node]
  exact (h.pool envs).mapError _

/-- The for-each block does what it did, unless its pool gave up. -/
theorem forEach (h : first.Deepens second) :
    (ForEach.block first).Deepens (ForEach.block second) := by
  refine .bind (.mapError (.bind ?_ fun items => ?_) _) fun _ => .refl _
  · exact .of_eq (congrFun (congrFun (congrFun h.fieldOr_eq _) _) _)
  · rw [h.env]
    split
    · exact .bind (h.runPool _) fun _ => .refl _
    · exact .bind (h.runPool _) fun _ => .refl _
    · exact .refl _

/-- The other standard blocks do not nest. -/
theorem block_eq (h : first.Deepens second) :
    LogMessage.block first = LogMessage.block second ∧
      ParseJson.block first = ParseJson.block second ∧
      ReturnValue.block first = ReturnValue.block second ∧
      SetState.block first = SetState.block second := by
  refine ⟨?_, ?_, ?_, ?_⟩
  · simp only [LogMessage.block, field, h.fieldOr_eq]
  · simp only [ParseJson.block, ParseJson.readValue, field, h.fieldOr_eq]
  · unfold ReturnValue.block ReturnValue.readValue ReturnValue.readText
    simp only [field, h.fieldOr_eq]
  · simp only [SetState.block, SetState.store, SetState.readValue, requireField, fieldJson, field,
      h.fieldOr_eq, h.setState_eq]

/-- A standard block does what it did, unless that gave up. -/
theorem standard (h : first.Deepens second) {node : Node} {block : Block}
    (hcreate : Registry.standard.create node = .ok block) :
    (block first).Deepens (block second) := by
  obtain ⟨hlog, hparse, hreturn, hset⟩ := h.block_eq
  obtain ⟨-, rfl⟩ | ⟨-, rfl⟩ | ⟨-, rfl⟩ | ⟨-, rfl⟩ | ⟨-, rfl⟩ :=
    Registry.create_standard_cases hcreate
  · exact h.forEach
  · exact .of_eq hlog
  · exact .of_eq hparse
  · exact .of_eq hreturn
  · exact .of_eq hset

end Context.Deepens

/-- Gathering does what it did if resolving the producers does. -/
theorem gather_deepens {first second : Node → Step Frame FlowError Resolution}
    {needed : List (Node × String)}
    (h : ∀ dependency ∈ needed, (first dependency.1).Deepens (second dependency.1)) (result : Json)
    (fired : Bool) :
    (gather first needed result fired).Deepens (gather second needed result fired) := by
  induction needed generalizing result fired with
  | nil => exact .refl _
  | cons dependency rest ih =>
    obtain ⟨hproducer, hothers⟩ := List.forall_mem_cons.mp h
    refine .bind hproducer fun resolution => ?_
    cases resolution with
    | unreached => exact ih hothers result fired
    | returned value => exact .refl _
    | reached record =>
      cases hvalue : record.returned? with
      | some value => simpa only [hvalue] using .refl _
      | none => simpa only [hvalue] using ih hothers _ _

/-- Iterations do what they did one by one. -/
theorem iterate_deepens {first second : Environment → Step World FlowError (Option Json)}
    (h : ∀ env, (first env).Deepens (second env)) (envs : List Environment) :
    (iterate first envs).Deepens (iterate second envs) := by
  induction envs with
  | nil => exact .refl _
  | cons env rest ih =>
    exact .bind (.catchCrash (h env) _) fun _ => .bind ih fun _ => .refl _

namespace Engine

variable {first second : Engine} {branches deeper : Branches} {nodes : List Node}

/-- Executing the component does the same in the second engine, unless it gives up in the first. -/
def Deepens (first second : Engine) (branches deeper : Branches) (node : Node) : Prop :=
  first.registry.contains node.type = second.registry.contains node.type ∧
    ∀ env, (first.execute branches node env).Deepens (second.execute deeper node env)

/-- A component does what it did if its block does. -/
theorem Deepens.of_block {node : Node} (hregistry : second.registry = first.registry)
    (h : ∀ block, first.registry.create node = .ok block → ∀ env,
      (block (first.context branches node env)).Deepens (block (second.context deeper node env))) :
    first.Deepens second branches deeper node := by
  refine ⟨by rw [hregistry], fun env => ?_⟩
  unfold execute
  rw [hregistry]
  cases hcreate : first.registry.create node with
  | error e => exact .refl _
  | ok block =>
    intro frame
    have hmade : (Step.ofExcept (.ok block) : Step Frame FlowError Block) frame =
        (.ok block, frame) := rfl
    rw [Step.bind_ok hmade, Step.bind_ok hmade]
    exact (h block hcreate env (frame.world.note (.started node.id node.type))).map
      (fun outcome => first.runBlock branches node env (fun _ _ => outcome) frame) fun _ => rfl

theorem Deepens.executeReached {node : Node} (h : first.Deepens second branches deeper node)
    (env : Environment) (independent : Bool) (gathered : Gathered) :
    (first.executeReached branches env node independent gathered).Deepens
      (second.executeReached deeper env node independent gathered) := by
  cases gathered with
  | returned value => exact .refl _
  | ready result fired =>
    intro frame
    simp only [Engine.executeReached]
    split
    · exact h.2 _ frame
    · exact .refl _

/-- Resolving does what it did if the components of the run do. -/
theorem resolve_deepens (h : ∀ node ∈ nodes, first.Deepens second branches deeper node)
    (env : Environment) (depth : Nat) : ∀ node ∈ nodes,
      (first.resolve branches nodes env depth node).Deepens
        (second.resolve deeper nodes env depth node) := by
  induction depth with
  | zero => exact fun _ _ => .refl _
  | succ depth ih =>
    intro node hnode frame
    have hneeded : ∀ dependency ∈ dependencies node nodes,
        (first.resolve branches nodes env depth dependency.1).Deepens
          (second.resolve deeper nodes env depth dependency.1) :=
      fun dependency hmem => ih dependency.1 (mem_of_mem_dependencies hmem)
    have hgather := gather_deepens hneeded .null false
    have hstep := hgather.bind fun gathered =>
      (h node hnode).executeReached env (dependencies node nodes).isEmpty gathered
    unfold resolve
    rw [(h node hnode).1]
    split
    · exact .refl _
    · split
      · exact .refl _
      · split
        · exact .refl _
        · exact (hstep _).map (fun outcome =>
            (outcome.1, { outcome.2 with scope := outcome.2.scope.leave node.id })) fun _ => rfl

theorem runEach_deepens (h : ∀ node ∈ nodes, first.Deepens second branches deeper node)
    (env : Environment) {pulled : List Node} (hpulled : ∀ node ∈ pulled, node ∈ nodes) :
    (first.runEach branches nodes env pulled).Deepens (second.runEach deeper nodes env pulled) := by
  induction pulled with
  | nil => exact .refl _
  | cons node rest ih =>
    obtain ⟨hnode, hothers⟩ := List.forall_mem_cons.mp hpulled
    refine .bind (resolve_deepens h env _ node hnode) fun resolution => ?_
    cases resolution with
    | unreached => exact ih hothers
    | returned value => exact .refl _
    | reached record =>
      cases hvalue : record.returned? with
      | some value => simpa only [hvalue] using .refl _
      | none => simpa only [hvalue] using ih hothers

/-- A run that does not give up does the same if its nested runs may nest deeper, and also in
another tree, as long as its components do the same there. -/
theorem runNodes_deepens (h : ∀ node ∈ nodes, first.Deepens second branches deeper node)
    (env : Environment) :
    (first.runNodes branches nodes env).Deepens (second.runNodes deeper nodes env) :=
  runEach_deepens h env fun _ => mem_of_mem_terminals

theorem runFresh_deepens (h : ∀ node ∈ nodes, first.Deepens second branches deeper node)
    (env : Environment) :
    (first.runFresh branches nodes env).Deepens (second.runFresh deeper nodes env) := fun world =>
  (runNodes_deepens h env { world }).map (fun outcome => (outcome.1, outcome.2.world)) fun _ => rfl

/-- A pool does the same where the branch that it repeats is the same and does the same. -/
theorem runPool_deepens {source label : String}
    (hbranch : second.tree.branch source label = first.tree.branch source label)
    (h : ∀ nodes, first.tree.branch source label = .ok nodes →
      ∀ node ∈ nodes, first.Deepens second branches deeper node) (envs : List Environment) :
    (first.runPool branches source label envs).Deepens
      (second.runPool deeper source label envs) := by
  cases envs with
  | nil => exact .refl _
  | cons env rest =>
    simp only [runPool, hbranch]
    split
    · exact .refl _
    · next nodes hnodes => exact iterate_deepens (runFresh_deepens (h nodes hnodes)) _

/-- A component of a standard type does the same where it is found alike, if its repetitions do. -/
theorem Deepens.of_standard {node : Node} (hregistry : second.registry = first.registry)
    (hwithin : first.registry.WithinStandard)
    (hfound : first.tree.get? node.id = second.tree.get? node.id)
    (hpool : ∀ envs, (branches.pool node.id ForEach.loopLabel envs).Deepens
      (deeper.pool node.id ForEach.loopLabel envs)) :
    first.Deepens second branches deeper node := by
  refine .of_block hregistry fun block hcreate env => ?_
  have hcontext : (first.context branches node env).Deepens (second.context deeper node env) :=
    ⟨rfl, rfl, hfound, hpool⟩
  exact hcontext.standard (hwithin.create_standard hcreate)

end Engine

end Workflow
