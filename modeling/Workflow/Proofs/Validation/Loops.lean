import Mathlib
import Workflow.Component.Document
import Workflow.Proofs.Run.Nested
import Workflow.Proofs.Validation.WellFormed

namespace Workflow

open Relation

variable {tree : Tree} {registry : Registry}

/-- Validation accepts every workflow of the tree. -/
def Tree.Valid (tree : Tree) (registry : Registry) : Prop :=
  ∀ workflow ∈ tree.nodes, workflow.type = Node.workflowType →
    ∃ summary, validateWorkflow tree registry workflow.id = .ok summary

/-- For-each components that repeat each other in a circle are all below one workflow. -/
def Tree.Confined (tree : Tree) : Prop :=
  ∀ node path, List.IsChain tree.Repeats (node :: path) → path.getLast? = some node →
    ∃ workflow ∈ tree.nodes, workflow.type = Node.workflowType ∧
      ∀ other ∈ path, other ∈ tree.descendants workflow.id

/-- Within one workflow, a for-each component that repeats another one has an edge to it. -/
theorem Tree.Repeats.feeds {outer inner : Node} (hrepeats : tree.Repeats outer inner)
    {nodes : List Node} (houter : outer ∈ nodes) (hinner : inner ∈ nodes) :
    Feeds nodes outer inner := by
  obtain ⟨out, hout, htarget⟩ := List.mem_map.mp hrepeats.target
  exact ⟨houter, hinner, out, (List.mem_filter.mp hout).1, htarget⟩

/-- For-each components of one workflow that repeat each other in a row are joined by a path of its
edges. -/
theorem transGen_feeds_of_isChain {nodes : List Node} {node last : Node} {path : List Node}
    (hchain : List.IsChain tree.Repeats (node :: path)) (hlast : path.getLast? = some last)
    (hnode : node ∈ nodes) (hpath : ∀ other ∈ path, other ∈ nodes) :
    TransGen (Feeds nodes) node last := by
  induction path generalizing node with
  | nil => cases hlast
  | cons next rest ih =>
    obtain ⟨hrepeats, hchain⟩ := List.isChain_cons_cons.mp hchain
    obtain ⟨hnext, hrest⟩ := List.forall_mem_cons.mp hpath
    have hfeeds := hrepeats.feeds hnode hnext
    cases rest with
    | nil =>
      obtain rfl : next = last := by simpa using hlast
      exact .single hfeeds
    | cons other more => exact .head hfeeds (ih hchain (by simpa using hlast) hnext hrest)

/-- In a tree of valid workflows, for-each components that repeat each other in a circle would be
below different workflows. -/
theorem Tree.Valid.irreflexive (hvalid : tree.Valid registry) (hconfined : tree.Confined)
    (node : Node) : ¬ TransGen tree.Repeats node node := by
  intro hcycle
  -- The circle is a closed chain, so one workflow has all of it, and its edges are no cycle there.
  obtain ⟨next, hfirst, hback⟩ := TransGen.head'_iff.mp hcycle
  obtain ⟨rest, hchain, hlast⟩ := List.exists_isChain_cons_of_relationReflTransGen hback
  have hpath : (next :: rest).getLast? = some node := by
    rw [List.getLast?_eq_some_getLast (List.cons_ne_nil next rest), hlast]
  obtain ⟨workflow, hworkflow, htype, hbelow⟩ :=
    hconfined node (next :: rest) (.cons_cons hfirst hchain) hpath
  obtain ⟨summary, hok⟩ := hvalid workflow hworkflow htype
  simp only [validateWorkflow, Tree.get?_eq_some_iff.mpr ⟨hworkflow, rfl⟩] at hok
  have hwellFormed := (Validation.wellFormed_of_validate (tree.nodup_descendants _) hok).1
  exact hwellFormed.acyclic node (transGen_feeds_of_isChain (.cons_cons hfirst hchain) hpath
    (hbelow node (List.mem_of_getLast? hpath)) hbelow)

/-- Where no for-each component repeats itself in the end, a run nests no deeper than the tree has
components, so it completes. -/
theorem Runner.run_completes {runner : Runner} (hregistry : runner.registry = .standard)
    (hirrefl : ∀ node, ¬ TransGen runner.tree.Repeats node node) {nodes : List Node}
    (hnodes : ∀ node ∈ nodes, node ∈ runner.tree.nodes) (env : Environment) (session : Session) :
    (runner.run nodes env session).1.Completes :=
  run_completes_of_within (hregistry ▸ Registry.withinStandard_standard) hirrefl hnodes env session

/-- Where validation accepts every workflow, and for-each components that repeat each other in a
circle are never below different workflows, a run of any workflow comes to an end, whatever its
environment and the state: nested runs nest no deeper than the tree has components. -/
theorem Runner.runWorkflow_completes {runner : Runner} (hregistry : runner.registry = .standard)
    (hvalid : runner.tree.Valid runner.registry) (hconfined : runner.tree.Confined)
    (root : String) (env : Environment) (session : Session) :
    (runner.runWorkflow root env session).1.Completes := by
  unfold Runner.runWorkflow
  cases runner.tree.get? root with
  | none => trivial
  | some _ =>
    exact run_completes hregistry (hvalid.irreflexive hconfined)
      (fun _ => Tree.mem_of_mem_descendants) env session

/-- A workflow with two for-each components, of which the first repeats the second. -/
def Sample.nestedLoops : Tree where
  nodes :=
    [{ id := "w", type := Node.workflowType },
     { id := "f", type := ForEach.type, parent? := some "w", content := [("items", .list [.null])]
       outs := [⟨ForEach.loopLabel, "g"⟩] },
     { id := "g", type := ForEach.type, parent? := some "w", content := [("items", .list [.null])] }]
  distinct := by decide +kernel

/-- Validation accepts the workflow of the two for-each components. -/
theorem Sample.valid_nestedLoops : Sample.nestedLoops.Valid .standard := by
  have hw : validateWorkflow Sample.nestedLoops .standard "w" = .ok ⟨2, 1, ["f", "g"]⟩ := by
    decide +kernel
  intro workflow hworkflow htype
  simp only [Sample.nestedLoops, List.mem_cons, List.not_mem_nil, or_false] at hworkflow
  obtain rfl | rfl | rfl := hworkflow
  · exact ⟨_, hw⟩
  · exact absurd htype (by decide)
  · exact absurd htype (by decide)

/-- Only the first of the two repeats something, and that is the second. -/
theorem Sample.ids_of_repeats_nestedLoops {outer inner : Node}
    (hrepeats : Sample.nestedLoops.Repeats outer inner) : outer.id = "f" ∧ inner.id = "g" := by
  have houter := hrepeats.outer_mem
  have htarget := hrepeats.target
  simp only [Sample.nestedLoops, List.mem_cons, List.not_mem_nil, or_false] at houter
  obtain rfl | rfl | rfl := houter
  · cases htarget
  · exact ⟨rfl, List.mem_singleton.mp htarget⟩
  · cases htarget

/-- No circle goes through the two, so there is none outside of a workflow. -/
theorem Sample.confined_nestedLoops : Sample.nestedLoops.Confined := by
  intro node path hchain hlast
  -- A component that is repeated repeats none, so no chain comes back to its first component.
  exfalso
  cases path with
  | nil => cases hlast
  | cons next rest =>
    obtain ⟨hfirst, hchain⟩ := List.isChain_cons_cons.mp hchain
    obtain ⟨hnode, hnext⟩ := Sample.ids_of_repeats_nestedLoops hfirst
    cases rest with
    | nil =>
      obtain rfl : next = node := by simpa using hlast
      exact absurd (hnode.symm.trans hnext) (by decide)
    | cons other more =>
      obtain ⟨hback, _⟩ := Sample.ids_of_repeats_nestedLoops (List.isChain_cons_cons.mp hchain).1
      exact absurd (hback.symm.trans hnext) (by decide)

/-- The run nests in its first component only. It needs no more room than the tree has anyway. -/
theorem Runner.runWorkflow_completes_nestedLoops :
    Sample.nestedLoops.Valid .standard ∧ Sample.nestedLoops.Confined ∧
      ∀ env session, (Runner.runWorkflow
        { registry := .standard, tree := Sample.nestedLoops, nesting := 0 } "w" env
          session).1.Completes :=
  ⟨Sample.valid_nestedLoops, Sample.confined_nestedLoops, fun env session =>
    Runner.runWorkflow_completes rfl Sample.valid_nestedLoops Sample.confined_nestedLoops "w" env
      session⟩

namespace Engine

variable {engine : Engine} {branches : Branches} {env : Environment} {node : Node} {block : Block}

/-- An execution gives up if the block of the component does. -/
theorem Executes.gives_up {frame after : Frame} {ending : Ending FlowError Resolution}
    (h : Executes engine branches node env frame ending after)
    (hcreate : engine.registry.create node = .ok block)
    (hblock : ∀ env world, (block (engine.context branches node env) world).1 = .tooDeep) :
    ending = .tooDeep := by
  obtain ⟨⟨ran, world⟩, hrun⟩ : ∃ run, block (engine.context branches node env)
      (frame.world.note (.started node.id node.type)) = run := ⟨_, rfl⟩
  obtain rfl : ran = .tooDeep := (congrArg Prod.fst hrun).symm.trans (hblock env _)
  exact (h.unique (.tooDeep hcreate hrun)).1

theorem Gathers.ending_of_nil {nodes : List Node} {result : Json} {fired : Bool}
    {frame after : Frame} {attempts : List Attempt} {ending : Ending FlowError Gathered}
    (h : Gathers engine branches nodes env [] result fired frame attempts ending after) :
    ending = .ok (.ready result fired) := by
  cases h
  rfl

/-- Resolving a component that depends on nothing gives up if its block does. -/
theorem Resolves.gives_up {nodes : List Node} {frame after : Frame} {attempts : List Attempt}
    {ending : Ending FlowError Resolution}
    (h : Resolves engine branches nodes env node frame attempts ending after)
    (hfree : dependencies node nodes = []) (henters : engine.Enters node frame)
    (hcreate : engine.registry.create node = .ok block)
    (hblock : ∀ env world, (block (engine.context branches node env) world).1 = .tooDeep) :
    ending = .tooDeep := by
  cases h with
  | unregistered hunregistered => cases henters.registered.symm.trans hunregistered
  | recorded _ hrecord => cases henters.unrecorded.symm.trans hrecord
  | cyclic _ _ hresolving => exact absurd hresolving henters.idle
  | halted _ hgathers =>
    rw [hfree] at hgathers
    exact absurd hgathers.ending_of_nil (Halt.ending_ne_ok _ _)
  | returned _ hgathers =>
    rw [hfree] at hgathers
    cases hgathers.ending_of_nil
  | unreached _ _ hneeded => exact absurd hfree hneeded
  | executed _ _ _ hexecutes => exact hexecutes.gives_up hcreate hblock

/-- A run gives up if the block of its first terminal component does, and that depends on nothing. -/
theorem runNodes_gives_up {nodes rest : List Node} (hterminals : terminals nodes = node :: rest)
    (hfree : dependencies node nodes = []) (hregistered : engine.registry.contains node.type = true)
    (hcreate : engine.registry.create node = .ok block)
    (hblock : ∀ env world, (block (engine.context branches node env) world).1 = .tooDeep)
    (world : World) : (engine.runNodes branches nodes env { world }).1 = .tooDeep := by
  obtain ⟨attempts, hpulls⟩ := engine.pulls_runNodes branches nodes env { world }
  have hresolves : ∀ {attempts ending after},
      Resolves engine branches nodes env node { world } attempts ending after → ending = .tooDeep :=
    fun h => h.gives_up hfree ⟨hregistered, rfl, List.not_mem_nil⟩ hcreate hblock
  rw [hterminals] at hpulls
  generalize (engine.runNodes branches nodes env { world }).1 = ending at hpulls ⊢
  cases hpulls with
  | halted hfirst => exact Halt.ending_eq_tooDeep.mpr (Halt.ending_eq_tooDeep.mp (hresolves hfirst))
  | returned hfirst => cases hresolves hfirst
  | ended hfirst _ => cases hresolves hfirst
  | unreached hfirst _ => cases hresolves hfirst
  | reached hfirst _ _ => cases hresolves hfirst

/-- A pool gives up if the run of its first iteration does. -/
theorem runPool_gives_up {source label : String} {nodes : List Node} {world : World}
    (hbranch : engine.tree.branch source label = .ok nodes) (env : Environment)
    (hrun : (engine.runNodes branches nodes env { world }).1 = .tooDeep) (envs : List Environment) :
    (engine.runPool branches source label (env :: envs) world).1 = .tooDeep := by
  simp only [runPool, hbranch, iterate]
  obtain ⟨⟨ending, frame⟩, hfirst⟩ : ∃ run, engine.runNodes branches nodes env { world } = run :=
    ⟨_, rfl⟩
  rw [hfirst] at hrun
  obtain rfl : ending = .tooDeep := hrun
  have hfresh : (engine.runFresh branches nodes env).catchCrash .join world =
      (Halt.tooDeep.ending, frame.world) := by
    simp [Step.catchCrash, runFresh, hfirst, Halt.ending]
  rw [Step.bind_halt hfresh]
  rfl

end Engine

/-- A for-each component with something to repeat gives up if its pool does. -/
theorem ForEach.block_gives_up {ctx : Context} {world : World} {item : Json} {items : List Json}
    (hitems : ctx.fieldJson "items" world = (.ok (.list (item :: items)), world))
    (hpool : ∀ env envs,
      (ctx.branches.pool ctx.node.id loopLabel (env :: envs) world).1 = .tooDeep) :
    (block ctx world).1 = .tooDeep := by
  obtain ⟨⟨ending, after⟩, hrun⟩ : ∃ run, ctx.branches.pool ctx.node.id loopLabel
      (listEnvs ctx.env 0 (item :: items)) world = run := ⟨_, rfl⟩
  have hending := hpool (itemEnv ctx.env (.int 0) item) (listEnvs ctx.env 1 items)
  obtain rfl : ending = .tooDeep := (congrArg Prod.fst hrun).symm.trans hending
  have hrunItems : runItems ctx world = (.tooDeep, after) := by
    rw [runItems, Step.bind_ok hitems]
    exact Step.bind_halt (Step.mapError_tooDeep hrun)
  rw [block, Step.bind_halt (Step.mapError_tooDeep hrunItems)]
  rfl

namespace Engine

variable {engine : Engine}

/-- The component is a for-each component whose items are a list that is not empty. -/
structure Busy (engine : Engine) (node : Node) : Prop where
  type : node.type = ForEach.type
  items : ∀ state env, ∃ item items, Field.evaluate engine.tree state env
    (Instance.pathOf node.id) "items" true "\x7b\x7d" = .ok (.list (item :: items))

/-- A run gives up if its first terminal component depends on nothing, has something to repeat, and
its pools give up. -/
theorem runNodes_gives_up_of_busy (hregistry : engine.registry = .standard) {branches : Branches}
    {nodes rest : List Node} {node : Node} (hterminals : terminals nodes = node :: rest)
    (hfree : dependencies node nodes = []) (hbusy : engine.Busy node)
    (hpool : ∀ env envs world,
      (branches.pool node.id ForEach.loopLabel (env :: envs) world).1 = .tooDeep)
    (env : Environment) (world : World) :
    (engine.runNodes branches nodes env { world }).1 = .tooDeep := by
  have hfind : engine.registry.find? node.type = some ForEach.blockType := by
    rw [hregistry, hbusy.type]
    rfl
  have hcreate : engine.registry.create node = .ok ForEach.block := by
    simp only [Registry.create, hfind]
    rfl
  refine runNodes_gives_up hterminals hfree (by rw [Registry.contains, hfind]; rfl) hcreate ?_ world
  intro env world
  obtain ⟨item, items, heval⟩ := hbusy.items world.state env
  have hfield : (engine.context branches node env).fieldJson "items" world =
      (.ok (.list (item :: items)), world) := by
    simp only [Context.fieldJson, Context.fieldOr, context, Context.path, heval]
    rfl
  exact ForEach.block_gives_up hfield fun env envs => hpool env envs world

/-- Where only one component is behind the loop outcome of another one, and is busy, the pools of
the other one give up if its own do one level further down. -/
theorem pool_succ_gives_up (hregistry : engine.registry = .standard) {outer : String} {inner : Node}
    (hbranch : engine.tree.branch outer ForEach.loopLabel = .ok [inner])
    (hterminals : terminals [inner] = [inner]) (hfree : dependencies inner [inner] = [])
    (hbusy : engine.Busy inner) {depth : Nat} (hpool : ∀ env envs world,
      ((engine.branches depth).pool inner.id ForEach.loopLabel (env :: envs) world).1 = .tooDeep)
    (env : Environment) (envs : List Environment) (world : World) :
    ((engine.branches (depth + 1)).pool outer ForEach.loopLabel (env :: envs) world).1 =
      .tooDeep :=
  runPool_gives_up hbranch env
    (runNodes_gives_up_of_busy hregistry hterminals hfree hbusy hpool env world) envs

end Engine

namespace Sample

/-- A for-each component of the workflow `v` that repeats one of the workflow `w`. -/
def ping : Node :=
  { id := "f", type := ForEach.type, parent? := some "v", content := [("items", .list [.null])]
    outs := [⟨ForEach.loopLabel, "g"⟩] }

/-- A for-each component of the workflow `w` that repeats the one of `v`. -/
def pong : Node :=
  { id := "g", type := ForEach.type, parent? := some "w", content := [("items", .list [.null])]
    outs := [⟨ForEach.loopLabel, "f"⟩] }

/-- The two workflows, each with its for-each component. -/
def pingPong : Tree where
  nodes :=
    [{ id := "v", type := Node.workflowType }, ping, { id := "w", type := Node.workflowType }, pong]
  distinct := by decide +kernel

/-- A document of the two workflows. Its components are written as lists of their fields. -/
def pingPongText : String :=
  "[[[\"v\",\"workflows_workflow\"]," ++
  "[\"f\",\"workflows_foreach\",\"v\",\x7b\"items\":[null]\x7d,[[\"loop\",\"g\"]]]," ++
  "[\"w\",\"workflows_workflow\"]," ++
  "[\"g\",\"workflows_foreach\",\"w\",\x7b\"items\":[null]\x7d,[[\"loop\",\"f\"]]]]]"

/-- Runs standard blocks on the two workflows, nested as deep as is allowed. -/
def pingPongRunner (nesting : Nat) : Runner :=
  { registry := .standard, tree := pingPong, nesting }

set_option maxRecDepth 20000 in
theorem parse_pingPongText : Tree.parse pingPongText = .ok pingPong := by cbv

/-- Edges that leave a workflow are no cycle of it, so validation accepts both. -/
theorem valid_pingPong : pingPong.Valid .standard := by
  have hv : validateWorkflow pingPong .standard "v" = .ok ⟨1, 0, ["f"]⟩ := by decide +kernel
  have hw : validateWorkflow pingPong .standard "w" = .ok ⟨1, 0, ["g"]⟩ := by decide +kernel
  intro workflow hworkflow htype
  simp only [pingPong, List.mem_cons, List.not_mem_nil, or_false] at hworkflow
  obtain rfl | rfl | rfl | rfl := hworkflow
  · exact ⟨_, hv⟩
  · exact absurd htype (by decide)
  · exact ⟨_, hw⟩
  · exact absurd htype (by decide)

theorem busy_ping (nesting : Nat) : (pingPongRunner nesting).Busy ping :=
  ⟨rfl, fun _ _ => ⟨.null, [], rfl⟩⟩

theorem busy_pong (nesting : Nat) : (pingPongRunner nesting).Busy pong :=
  ⟨rfl, fun _ _ => ⟨.null, [], rfl⟩⟩

/-- However deep the two workflows may nest, their pools give up. -/
theorem pool_pingPong (nesting depth : Nat) :
    (∀ env envs world, (((pingPongRunner nesting).branches depth).pool "f" ForEach.loopLabel
        (env :: envs) world).1 = .tooDeep) ∧
      ∀ env envs world, (((pingPongRunner nesting).branches depth).pool "g" ForEach.loopLabel
        (env :: envs) world).1 = .tooDeep := by
  have hping : pingPong.branch "f" ForEach.loopLabel = .ok [pong] := rfl
  have hpong : pingPong.branch "g" ForEach.loopLabel = .ok [ping] := rfl
  induction depth with
  | zero => exact ⟨fun _ _ _ => rfl, fun _ _ _ => rfl⟩
  | succ depth ih =>
    exact ⟨Engine.pool_succ_gives_up rfl hping rfl rfl (busy_pong nesting) ih.2,
      Engine.pool_succ_gives_up rfl hpong rfl rfl (busy_ping nesting) ih.1⟩

end Sample

/-- The document of the two workflows is read, and validation accepts both of them. But a run of the
first one gives up, however deep it may nest, whatever its environment and the state. -/
theorem Sample.runWorkflow_pingPong_gives_up :
    Tree.parse pingPongText = .ok pingPong ∧ pingPong.Valid .standard ∧
      ∀ nesting env session,
        ((pingPongRunner nesting).runWorkflow "v" env session).1 = .tooDeep := by
  refine ⟨parse_pingPongText, valid_pingPong, ?_⟩
  intro nesting env session
  have hrun : (pingPongRunner nesting).runWorkflow "v" env =
      (pingPongRunner nesting).run (pingPong.descendants "v") env := rfl
  have hnodes : pingPong.descendants "v" = [ping] := rfl
  have hnested : ((pingPongRunner nesting).runNodes (pingPongRunner nesting).nested [ping] env
      { world := session.world }).1 = .tooDeep :=
    Engine.runNodes_gives_up_of_busy rfl rfl rfl (busy_ping nesting)
      (pool_pingPong nesting _).1 env session.world
  rw [hrun, hnodes, Runner.run_ending, hnested]
  rfl

end Workflow
