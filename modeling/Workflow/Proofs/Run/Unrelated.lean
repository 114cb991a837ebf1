import Workflow.Proofs.Component.Descendants
import Workflow.Proofs.Run.Deeper

namespace Workflow

/-- Both trees have these components. Each of their edges leads to the same one of them in both
trees, or to nothing in both. -/
structure Tree.Share (nodes : List Node) (tree other : Tree) : Prop where
  own : ∀ node ∈ nodes, tree.get? node.id = some node ∧ other.get? node.id = some node
  target : ∀ node ∈ nodes, ∀ out ∈ node.outs, tree.get? out.target = other.get? out.target ∧
    ∀ found, tree.get? out.target = some found → found ∈ nodes

private theorem mapM_congr {ε α β : Type} {f g : α → Except ε β} {l : List α}
    (h : ∀ a ∈ l, f a = g a) : l.mapM f = l.mapM g := by
  induction l with
  | nil => rfl
  | cons a rest ih =>
    obtain ⟨hfirst, hrest⟩ := List.forall_mem_cons.mp h
    rw [List.mapM_cons, List.mapM_cons, hfirst, ih hrest]

theorem Node.exists_out_of_mem_targets {node : Node} {label target : String}
    (h : target ∈ node.targets label) : ∃ out ∈ node.outs, out.target = target := by
  obtain ⟨out, hout, rfl⟩ := List.mem_map.mp h
  exact ⟨out, List.mem_of_mem_filter hout, rfl⟩

namespace Tree.Share

variable {nodes : List Node} {tree other : Tree}

/-- What two trees share does not depend on which one comes first. -/
theorem symm (h : Share nodes tree other) : Share nodes other tree where
  own node hnode := (h.own node hnode).symm
  target node hnode out hout := by
    obtain ⟨hsame, hfound⟩ := h.target node hnode out hout
    exact ⟨hsame.symm, hsame ▸ hfound⟩

theorem trans_self (h : Share nodes tree other) : Share nodes tree tree where
  own node hnode := ⟨(h.own node hnode).1, (h.own node hnode).1⟩
  target node hnode out hout := ⟨rfl, (h.target node hnode out hout).2⟩

/-- Behind an outcome of a shared component are the same components in both trees. -/
theorem branch_eq (h : Share nodes tree other) {node : Node} (hnode : node ∈ nodes)
    (label : String) : tree.branch node.id label = other.branch node.id label := by
  simp only [branch, h.own node hnode]
  refine mapM_congr fun target htarget => ?_
  obtain ⟨out, hout, rfl⟩ := Node.exists_out_of_mem_targets htarget
  rw [(h.target node hnode out hout).1]

/-- The components behind an outcome of a shared component are shared. -/
theorem mem_of_branch (h : Share nodes tree other) {node inner : Node} (hnode : node ∈ nodes)
    {label : String} {found : List Node} (hbranch : tree.branch node.id label = .ok found)
    (hinner : inner ∈ found) : inner ∈ nodes := by
  have houter := (Tree.get?_eq_some_iff.mp (h.own node hnode).1).1
  obtain ⟨hmem, htarget⟩ := Tree.mem_of_branch houter hbranch hinner
  obtain ⟨out, hout, hid⟩ := Node.exists_out_of_mem_targets htarget
  exact (h.target node hnode out hout).2 inner (Tree.get?_eq_some_iff.mpr ⟨hmem, hid.symm⟩)

end Tree.Share

namespace Engine

variable {first second : Engine} {nodes : List Node}

/-- What a shared component repeats does the same in both trees if it may nest as deep. -/
theorem pool_deepens (hregistry : second.registry = first.registry)
    (hwithin : first.registry.WithinStandard) (hshare : Tree.Share nodes first.tree second.tree)
    {depth deeper : Nat} (hdepth : depth ≤ deeper) : ∀ node ∈ nodes, ∀ label envs,
      ((first.branches depth).pool node.id label envs).Deepens
        ((second.branches deeper).pool node.id label envs) := by
  induction depth generalizing deeper with
  | zero => exact fun _ _ _ _ => .giveUp _
  | succ depth ih =>
    obtain ⟨deeper, rfl⟩ := Nat.exists_eq_add_one.mpr (Nat.lt_of_lt_of_le depth.succ_pos hdepth)
    intro node hnode label envs
    refine runPool_deepens (hshare.branch_eq hnode label).symm ?_ envs
    intro found hbranch inner hinner
    have hinner := hshare.mem_of_branch hnode hbranch hinner
    obtain ⟨hown, hother⟩ := hshare.own inner hinner
    exact .of_standard hregistry hwithin (hown.trans hother.symm)
      (ih (Nat.le_of_succ_le_succ hdepth) inner hinner ForEach.loopLabel)

end Engine

/-- The larger tree has components with new ids, anywhere among those of the tree. No edge of the
tree leads to one of them, and none of them is directly inside the root or a component below it. -/
structure Tree.Unrelated (tree larger : Tree) (root : String) : Prop where
  sublist : tree.nodes.Sublist larger.nodes
  target : ∀ node ∈ tree.nodes, ∀ out ∈ node.outs, ∀ other ∈ larger.nodes,
    other.id ∉ tree.ids → out.target ≠ other.id
  atRoot : tree.Closed larger root
  below : ∀ node ∈ tree.descendants root, tree.Closed larger node.id

namespace Tree.Unrelated

variable {tree larger : Tree} {root : String}

/-- A tree shares all its components with the larger one, if the others are unrelated. -/
theorem share (h : Unrelated tree larger root) : Share tree.nodes tree larger where
  own node hnode :=
    ⟨Tree.get?_eq_some_iff.mpr ⟨hnode, rfl⟩,
      Tree.get?_eq_some_iff.mpr ⟨h.sublist.subset hnode, rfl⟩⟩
  target node hnode out hout := by
    refine ⟨?_, fun found hfound => (Tree.get?_eq_some_iff.mp hfound).1⟩
    ext found
    rw [Tree.get?_eq_some_iff, Tree.get?_eq_some_iff]
    refine ⟨fun ⟨hmem, hid⟩ => ⟨h.sublist.subset hmem, hid⟩, fun ⟨hmem, hid⟩ => ⟨?_, hid⟩⟩
    have hown : found.id ∈ tree.ids := by
      by_contra hforeign
      exact h.target node hnode out hout found hmem hforeign hid.symm
    obtain ⟨other, hother, hsame⟩ := List.mem_map.mp hown
    rwa [← List.inj_on_of_nodup_map larger.distinct (h.sublist.subset hother) hmem hsame]

/-- Below the root are the same components in both trees. -/
theorem descendants_eq (h : Unrelated tree larger root) :
    larger.descendants root = tree.descendants root :=
  Tree.descendants_eq_of_closed h.sublist h.atRoot h.below

end Tree.Unrelated

section Outcomes

variable {σ τ ε φ α β : Type} {run first second : Nat → Ending ε α × σ}

/-- However deep runs may nest, that is not deep enough. -/
def Diverges (run : Nat → Ending ε α × σ) : Prop := ∀ nesting, (run nesting).1 = .tooDeep

/-- If runs may nest deep enough, this is what they come to. -/
def Settles (run : Nat → Ending ε α × σ) (outcome : Ending ε α × σ) : Prop :=
  outcome.1 ≠ .tooDeep ∧ ∃ enough, ∀ nesting, enough ≤ nesting → run nesting = outcome

/-- What is made of runs that give up at every depth gives up at every depth. -/
theorem Diverges.map (h : Diverges run) {f : Ending ε α × σ → Ending φ β × τ}
    (hf : ∀ s, (f (.tooDeep, s)).1 = .tooDeep) : Diverges fun nesting => f (run nesting) := by
  intro nesting
  have hrun : run nesting = (.tooDeep, (run nesting).2) := Prod.ext (h nesting) rfl
  dsimp only
  rw [hrun]
  exact hf _

theorem Settles.map {outcome : Ending ε α × σ} (h : Settles run outcome)
    {f : Ending ε α × σ → Ending φ β × τ}
    (hf : ∀ outcome, (f outcome).1 = .tooDeep → outcome.1 = .tooDeep) :
    Settles (fun nesting => f (run nesting)) (f outcome) := by
  obtain ⟨hdone, enough, hall⟩ := h
  exact ⟨mt (hf outcome) hdone, enough, fun nesting hle => congrArg f (hall nesting hle)⟩

/-- Runs of which each does, at some depth, what the other one does both diverge or come to the
same. -/
theorem diverge_or_settle (hfirst : ∀ n m, n ≤ m → Deepens (first n) (first m))
    (hsecond : ∀ n m, n ≤ m → Deepens (first n) (second m))
    (hback : ∀ n, ∃ m, Deepens (second n) (first m)) :
    (Diverges first ∧ Diverges second) ∨
      ∃ outcome, Settles first outcome ∧ Settles second outcome := by
  by_cases hdiverges : Diverges first
  · refine Or.inl ⟨hdiverges, fun n => ?_⟩
    obtain ⟨m, hdeep | hsame⟩ := hback n
    · exact hdeep
    · exact hsame ▸ hdiverges m
  · obtain ⟨n, hdone⟩ := not_forall.mp hdiverges
    exact Or.inr ⟨first n, ⟨hdone, n, fun m hle => (hfirst n m hle).resolve_left hdone⟩,
      hdone, n, fun m hle => (hsecond n m hle).resolve_left hdone⟩

end Outcomes

namespace Runner

/-- A runner whose nested runs may nest this much deeper than its tree has components. -/
def allowing (runner : Runner) (nesting : Nat) : Runner := { runner with nesting }

/-- A runner of another tree. -/
def within (runner : Runner) (tree : Tree) : Runner := { runner with tree }

/-- Running the components below a root in a fresh scope, without a log entry. -/
def runBelow (runner : Runner) (root : String) (env : Environment) (world : World) :
    Ending FlowError (Option Json) × Frame :=
  runner.runNodes runner.nested (runner.tree.descendants root) env { world }

/-- What a top-level run makes of running its components. -/
def finish (runner : Runner) (session : Session) :
    Ending FlowError (Option Json) × Frame → Ending FlowError Report × Session
  | (.ok returned?, frame) =>
    (.ok ⟨returned?, frame.scope⟩,
      runner.log { session with world := frame.world } (.ofSuccess frame.scope returned?))
  | (.error e, frame) =>
    (.error e, runner.log { session with world := frame.world } (.ofFailure frame.scope))
  | (.crashed report, frame) => (.crashed report, { session with world := frame.world })
  | (.tooDeep, frame) => (.tooDeep, { session with world := frame.world })

theorem finish_eq_tooDeep {runner : Runner} {session : Session}
    {outcome : Ending FlowError (Option Json) × Frame}
    (h : (runner.finish session outcome).1 = .tooDeep) : outcome.1 = .tooDeep := by
  obtain ⟨ending, frame⟩ := outcome
  cases ending with
  | tooDeep => rfl
  | _ => cases h

/-- A run of a workflow is a run of the components below its root, with an entry in the log. -/
theorem runWorkflow_eq_finish (runner : Runner) {root : String} (hroot : root ∈ runner.tree.ids)
    (env : Environment) (session : Session) :
    runner.runWorkflow root env session =
      runner.finish session (runner.runBelow root env session.world) := by
  obtain ⟨node, hnode, hid⟩ := List.mem_map.mp hroot
  rw [runWorkflow, Tree.get?_eq_some_iff.mpr ⟨hnode, hid⟩]
  unfold run finish runBelow
  rfl

/-- Running the components below a root does the same where they are the same and shared, and where
runs may nest as deep. -/
theorem runBelow_deepens {first second : Runner} {nodes : List Node} {root : String}
    (hregistry : second.registry = first.registry) (hwithin : first.registry.WithinStandard)
    (hshare : Tree.Share nodes first.tree second.tree)
    (hsame : second.tree.descendants root = first.tree.descendants root)
    (hnodes : ∀ node ∈ first.tree.descendants root, node ∈ nodes)
    (hdepth : first.tree.nodes.length + first.nesting ≤ second.tree.nodes.length + second.nesting)
    (env : Environment) (world : World) :
    Deepens (first.runBelow root env world) (second.runBelow root env world) := by
  unfold runBelow
  rw [hsame]
  refine Engine.runNodes_deepens (fun node hnode => ?_) env { world }
  obtain ⟨hown, hother⟩ := hshare.own node (hnodes node hnode)
  exact .of_standard hregistry hwithin (hown.trans hother.symm)
    (Engine.pool_deepens hregistry hwithin hshare hdepth node (hnodes node hnode) _)

/-- Below the root, the run comes to the same with and without unrelated components, if it comes to
an end. -/
theorem runBelow_unrelated {runner : Runner} {larger : Tree} {root : String}
    (hwithin : runner.registry.WithinStandard) (h : Tree.Unrelated runner.tree larger root)
    (env : Environment) (world : World) :
    let small := fun nesting => (runner.allowing nesting).runBelow root env world
    let large := fun nesting => ((runner.allowing nesting).within larger).runBelow root env world
    (Diverges small ∧ Diverges large) ∨
      ∃ outcome, Settles small outcome ∧ Settles large outcome := by
  intro small large
  have hnodes : ∀ node ∈ runner.tree.descendants root, node ∈ runner.tree.nodes :=
    fun _ => Tree.mem_of_mem_descendants
  have hdeeper : ∀ n m, n ≤ m → Deepens (small n) (small m) := fun n m hle =>
    @runBelow_deepens (runner.allowing n) (runner.allowing m) _ _ rfl hwithin h.share.trans_self rfl
      hnodes (Nat.add_le_add_left hle _) env world
  have hgrown : ∀ n m, n ≤ m → Deepens (small n) (large m) := fun n m hle =>
    @runBelow_deepens (runner.allowing n) ((runner.allowing m).within larger) _ _ rfl hwithin
      h.share h.descendants_eq hnodes (Nat.add_le_add h.sublist.length_le hle) env world
  -- The larger tree lets runs nest deeper than the smaller one at the same `nesting`.
  have hshrunk : ∀ n, Deepens (large n) (small (larger.nodes.length + n)) := fun n =>
    @runBelow_deepens ((runner.allowing n).within larger)
      (runner.allowing (larger.nodes.length + n)) _ _ rfl hwithin h.share.symm
      h.descendants_eq.symm (fun node hnode => hnodes node (h.descendants_eq ▸ hnode))
      (Nat.le_add_left _ _) env world
  exact diverge_or_settle hdeeper hgrown fun n => ⟨_, hshrunk n⟩

/-- Unrelated components do not change the run of a workflow. It never comes to an end with and
without them, or both ways it comes to the same: result or error, records with their environments,
log entry, and state. -/
theorem runWorkflow_unrelated {runner : Runner} {larger : Tree} {root : String}
    (hwithin : runner.registry.WithinStandard) (hroot : root ∈ runner.tree.ids)
    (h : Tree.Unrelated runner.tree larger root) (env : Environment) (session : Session) :
    let small := fun nesting => runner.allowing nesting
    let large := fun nesting => (runner.allowing nesting).within larger
    (Diverges (fun nesting => (small nesting).runWorkflow root env session) ∧
      Diverges (fun nesting => (large nesting).runWorkflow root env session)) ∨
    ∃ outcome report,
      Settles (fun nesting => (small nesting).runBelow root env session.world) outcome ∧
      Settles (fun nesting => (large nesting).runBelow root env session.world) outcome ∧
      Settles (fun nesting => (small nesting).runWorkflow root env session) report ∧
      Settles (fun nesting => (large nesting).runWorkflow root env session) report := by
  intro small large
  have hlargeRoot : root ∈ larger.ids := (h.sublist.map Node.id).subset hroot
  have hsmall : (fun nesting => (small nesting).runWorkflow root env session) = fun nesting =>
      runner.finish session ((small nesting).runBelow root env session.world) := by
    funext nesting
    exact (small nesting).runWorkflow_eq_finish hroot env session
  have hlarge : (fun nesting => (large nesting).runWorkflow root env session) = fun nesting =>
      runner.finish session ((large nesting).runBelow root env session.world) := by
    funext nesting
    exact (large nesting).runWorkflow_eq_finish hlargeRoot env session
  rw [hsmall, hlarge]
  obtain ⟨hfirst, hsecond⟩ | ⟨outcome, hfirst, hsecond⟩ :=
    runBelow_unrelated hwithin h env session.world
  · exact Or.inl ⟨hfirst.map fun _ => rfl, hsecond.map fun _ => rfl⟩
  · exact Or.inr ⟨outcome, _, hfirst, hsecond, hfirst.map fun _ => finish_eq_tooDeep,
      hsecond.map fun _ => finish_eq_tooDeep⟩

end Runner

namespace Sample

/-- A for-each component stores each of two items in the same place. -/
def visits : Tree where
  nodes :=
    [{ id := "w", type := Node.workflowType },
     { id := "f", type := ForEach.type, parent? := some "w"
       content := [("items", .list [.text "a", .text "b"])]
       outs := [⟨ForEach.loopLabel, "s"⟩] },
     { id := "s", type := SetState.type, parent? := some "f"
       content := [("element", .text "last"), ("value", .text "@\x7bitem\x7d")] }]
  distinct := by decide +kernel

/-- A component of another workflow leads into this one. -/
def visitsBeside : Tree where
  nodes :=
    { id := "x", type := SetState.type, parent? := some "v"
      content := [("element", .text "other"), ("value", .text "v")]
      outs := [⟨"success", "s"⟩] } :: visits.nodes ++ [{ id := "v", type := Node.workflowType }]
  distinct := by decide +kernel

def visitor : Runner where
  registry := .standard
  tree := visits
  nesting := 0

end Sample

/-- The run comes to the same end with and without the other workflow. -/
theorem Runner.runWorkflow_unrelated_visits :
    ∃ outcome report,
      Settles (fun nesting => (Sample.visitor.allowing nesting).runBelow "w" .empty {}) outcome ∧
      Settles (fun nesting =>
        ((Sample.visitor.allowing nesting).within Sample.visitsBeside).runBelow "w" .empty {})
        outcome ∧
      Settles (fun nesting => (Sample.visitor.allowing nesting).runWorkflow "w" .empty {}) report ∧
      Settles (fun nesting =>
        ((Sample.visitor.allowing nesting).within Sample.visitsBeside).runWorkflow "w" .empty {})
        report := by
  have hdone : ¬ Diverges fun nesting =>
      (Sample.visitor.allowing nesting).runWorkflow "w" .empty {} := fun hdiverges => by
    have hcompletes : ((Sample.visitor.allowing 0).runWorkflow "w" .empty {}).1.Completes := by
      decide +kernel
    rw [hdiverges 0] at hcompletes
    exact hcompletes
  have hroot : "w" ∈ Sample.visitor.tree.ids := by decide +kernel
  have hunrelated : Tree.Unrelated Sample.visitor.tree Sample.visitsBeside "w" :=
    { sublist := (List.sublist_append_left _ _).cons _
      target := by decide +kernel
      atRoot := by unfold Tree.Closed; decide +kernel
      below := by unfold Tree.Closed; decide +kernel }
  obtain ⟨hdiverges, _⟩ | hsettles :=
    Runner.runWorkflow_unrelated Registry.withinStandard_standard hroot hunrelated .empty {}
  · exact absurd hdiverges hdone
  · exact hsettles

end Workflow
