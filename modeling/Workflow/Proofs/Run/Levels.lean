import Mathlib.Order.Lattice.Nat
import Workflow.Proofs.Run.Nested
import Workflow.Proofs.Run.Unfolded

namespace Workflow

open Relation

/-- An edge leads from a component of the tree to another one, whatever workflows they belong to. -/
structure Tree.Leads (tree : Tree) (outer inner : Node) : Prop where
  outer_mem : outer ∈ tree.nodes
  inner_mem : inner ∈ tree.nodes
  target : ∃ out ∈ outer.outs, out.target = inner.id

/-- The numbers of edges on the paths along edges. -/
def Tree.pathEdges (tree : Tree) : Set Nat :=
  {edges | ∃ path, List.IsChain tree.Leads path ∧ path.length = edges + 1}

/-- The number of edges on a longest path, if the edges lead in no circle. -/
noncomputable def Tree.longestPath (tree : Tree) : Nat := sSup tree.pathEdges

/-- A path with so many edges ends at the component. -/
def Tree.Behind (tree : Tree) (edges : Nat) (node : Node) : Prop :=
  node ∈ tree.nodes ∧ ∃ path, List.IsChain (flip tree.Leads) (node :: path) ∧ path.length = edges

variable {tree : Tree} {longest : Nat}

/-- What a component repeats is at the end of one of its edges. -/
theorem Tree.Repeats.leads {outer inner : Node} (h : tree.Repeats outer inner) :
    tree.Leads outer inner := by
  obtain ⟨out, hout, htarget⟩ := List.mem_map.mp h.target
  exact ⟨h.outer_mem, h.inner_mem, out, (List.mem_filter.mp hout).1, htarget⟩

/-- Where edges lead in no circle there is a longest path. -/
theorem Tree.isGreatest_longestPath (hacyclic : ∀ node, ¬ TransGen tree.Leads node node) :
    IsGreatest tree.pathEdges tree.longestPath := by
  have hbound : ∀ edges ∈ tree.pathEdges, edges ≤ tree.nodes.length := by
    rintro edges ⟨path, hpath, hlength⟩
    cases hpath with
    | nil => cases hlength
    | singleton => simp_all
    | cons_cons hleads hrest =>
      have hlt := Tree.length_lt_of_isChain (fun h => h.inner_mem) hacyclic hleads.outer_mem
        (.cons_cons hleads hrest)
      rw [List.length_cons, Nat.add_right_cancel_iff] at hlength
      exact hlength ▸ hlt.le
  have hbounded : BddAbove tree.pathEdges := ⟨tree.nodes.length, hbound⟩
  have hsome : tree.pathEdges.Nonempty := ⟨0, [default], .singleton _, rfl⟩
  exact ⟨Nat.sSup_mem hsome hbounded, fun _ hedges => le_csSup hbounded hedges⟩

/-- No path has more edges than a longest one. -/
theorem Tree.length_le_longestPath (hacyclic : ∀ node, ¬ TransGen tree.Leads node node)
    (path : List Node) (hpath : List.IsChain tree.Leads path) :
    path.length ≤ tree.longestPath + 1 := by
  cases path with
  | nil => simp
  | cons node rest =>
    exact Nat.succ_le_succ ((isGreatest_longestPath hacyclic).2 ⟨node :: rest, hpath, rfl⟩)

namespace Tree.Behind

theorem of_mem {node : Node} (hnode : node ∈ tree.nodes) : tree.Behind 0 node :=
  ⟨hnode, [], .singleton node, rfl⟩

theorem next {edges : Nat} {outer inner : Node} (h : tree.Behind edges outer)
    (hleads : tree.Leads outer inner) : tree.Behind (edges + 1) inner := by
  obtain ⟨-, path, hpath, rfl⟩ := h
  exact ⟨hleads.inner_mem, outer :: path, .cons_cons hleads hpath, rfl⟩

/-- No component lies further than a path of edges is long. -/
theorem le {edges : Nat} {node : Node} (h : tree.Behind edges node)
    (hlongest : ∀ path, List.IsChain tree.Leads path → path.length ≤ longest + 1) :
    edges ≤ longest := by
  obtain ⟨-, path, hpath, rfl⟩ := h
  have hforward : List.IsChain tree.Leads (node :: path).reverse := List.isChain_reverse.mpr hpath
  have hle := hlongest _ hforward
  rwa [List.length_reverse, List.length_cons, Nat.add_le_add_iff_right] at hle

/-- The components behind an outcome lie one edge further. -/
theorem branch {edges : Nat} {outer inner : Node} {label : String} {nodes : List Node}
    (h : tree.Behind edges outer) (hbranch : tree.branch outer.id label = .ok nodes)
    (hinner : inner ∈ nodes) : tree.Behind (edges + 1) inner := by
  obtain ⟨hmem, htarget⟩ := Tree.mem_of_branch h.1 hbranch hinner
  obtain ⟨out, hout, htarget⟩ := List.mem_map.mp htarget
  exact h.next ⟨h.1, hmem, out, (List.mem_filter.mp hout).1, htarget⟩

end Tree.Behind

/-- What happens is no deeper than a path of so many edges allows. A run without components may be
one level deeper: a for-each component needs no edge to repeat nothing at all. -/
def Happening.Shallow (longest : Nat) : Happening → Prop
  | .began level nodes => level ≤ longest + 1 ∧ (nodes ≠ [] → level ≤ longest)
  | .ran _ => True

namespace Engine

variable {engine : Engine}

mutual

/-- The components of a run lie as many edges behind others as the run is branches deep, so no run
that has components is deeper than a path of edges is long. -/
theorem Unfolds.shallow {depth level : Nat} {nodes : List Node} {env : Environment}
    {world after : World} {happenings : List Happening} {ending : Ending FlowError (Option Json)}
    (h : Unfolds engine depth level nodes env world happenings ending after)
    (hlongest : ∀ path, List.IsChain engine.tree.Leads path → path.length ≤ longest + 1)
    (hbehind : ∀ node ∈ nodes, engine.tree.Behind level node) (hlevel : level ≤ longest + 1) :
    ∀ happening ∈ happenings, happening.Shallow longest := by
  match h with
  | .scope _ hpulls hcomprise =>
    refine List.forall_mem_cons.mpr ⟨⟨hlevel, fun hne => ?_⟩, ?_⟩
    · obtain ⟨node, hnode⟩ := List.exists_mem_of_ne_nil _ hne
      exact (hbehind node hnode).le hlongest
    · refine hcomprise.shallow hlongest fun run hrun => ?_
      obtain ⟨attempt, hattempt, hmade⟩ := List.mem_filterMap.mp hrun
      obtain ⟨_, _, hnode, _⟩ := blockRun?_eq_some_iff.mp hmade
      rw [hnode]
      exact hbehind _ (hpulls.mem_nodes (fun _ => mem_of_mem_terminals) attempt hattempt)

theorem Comprise.shallow {depth level : Nat} {runs : List BlockRun} {happenings : List Happening}
    (h : Comprise engine depth level runs happenings)
    (hlongest : ∀ path, List.IsChain engine.tree.Leads path → path.length ≤ longest + 1)
    (hbehind : ∀ run ∈ runs, engine.tree.Behind level run.node) :
    ∀ happening ∈ happenings, happening.Shallow longest := by
  match h with
  | .done => exact List.forall_mem_nil _
  | .single _ hrest =>
    exact List.forall_mem_cons.mpr
      ⟨trivial, hrest.shallow hlongest (List.forall_mem_cons.mp hbehind).2⟩
  | .tooDeep _ hrest =>
    exact List.forall_mem_cons.mpr
      ⟨trivial, hrest.shallow hlongest (List.forall_mem_cons.mp hbehind).2⟩
  | .repeated hrepeats hloop hrest =>
    obtain ⟨hfirst, hothers⟩ := List.forall_mem_cons.mp hbehind
    obtain ⟨-, -, hbranch⟩ := BlockRun.repeats?_eq_some_iff.mp hrepeats
    have hinner := hloop.shallow hlongest (fun _ => hfirst.branch hbranch)
      (Nat.succ_le_succ (hfirst.le hlongest))
    exact List.forall_mem_cons.mpr
      ⟨trivial, List.forall_mem_append.mpr ⟨hinner, hrest.shallow hlongest hothers⟩⟩

/-- What a loop repeats is no deeper than that. -/
theorem Loops.shallow {depth level : Nat} {nodes : List Node} {envs : List Environment}
    {world after : World} {happenings : List Happening}
    (h : Loops engine depth level nodes envs world happenings after)
    (hlongest : ∀ path, List.IsChain engine.tree.Leads path → path.length ≤ longest + 1)
    (hbehind : ∀ node ∈ nodes, engine.tree.Behind level node) (hlevel : level ≤ longest + 1) :
    ∀ happening ∈ happenings, happening.Shallow longest := by
  match h with
  | .done => exact List.forall_mem_nil _
  | .next hfirst hrest =>
    exact List.forall_mem_append.mpr ⟨hfirst.shallow hlongest hbehind hlevel,
      hrest.shallow hlongest hbehind hlevel⟩
  | .halted hfirst => exact hfirst.shallow hlongest hbehind hlevel

end

end Engine

theorem Tree.exists_of_branch {source label : String} {nodes : List Node}
    (hbranch : tree.branch source label = .ok nodes) : ∃ outer ∈ tree.nodes, outer.id = source := by
  unfold Tree.branch at hbranch
  split at hbranch
  · cases hbranch
  · next outer hget => exact ⟨outer, Tree.get?_eq_some_iff.mp hget⟩

namespace Runner

variable {runner : Runner} {call : Call}

/-- The components of a branch lie one edge behind. -/
theorem behind_of_branch {source label : String} {nodes : List Node}
    (hbranch : runner.tree.branch source label = .ok nodes) :
    ∀ node ∈ nodes, runner.tree.Behind 1 node := by
  obtain ⟨outer, houter, rfl⟩ := Tree.exists_of_branch hbranch
  exact fun _ => (Tree.Behind.of_mem houter).branch hbranch

/-- The components that a call looks up lie as many edges behind as it runs branches deep. -/
theorem behind_of_looked {nodes : List Node} {env : Environment} (hcall : call.OfTree)
    (hlooked : runner.looked? call = some (nodes, env)) :
    ∀ node ∈ nodes, runner.tree.Behind call.level node := by
  cases call with
  | workflow root env =>
    obtain ⟨_, _, heq⟩ := Option.map_eq_some_iff.mp hlooked
    obtain ⟨rfl, rfl⟩ := Prod.mk.inj heq
    exact fun _ hnode => .of_mem (Tree.mem_of_mem_descendants hnode)
  | key key env =>
    obtain ⟨_, _, hfound⟩ := Option.bind_eq_some_iff.mp hlooked
    obtain ⟨_, _, heq⟩ := Option.map_eq_some_iff.mp hfound
    obtain ⟨rfl, rfl⟩ := Prod.mk.inj heq
    exact fun _ hnode => .of_mem (Tree.mem_of_mem_descendants hnode)
  | branch source label env =>
    obtain ⟨_, hfound, heq⟩ := Option.map_eq_some_iff.mp hlooked
    obtain ⟨rfl, rfl⟩ := Prod.mk.inj heq
    exact behind_of_branch (Step.toOption_eq_some_iff.mp hfound)
  | nodes nodes env => exact hcall.elim
  | pool source label envs => cases hlooked
  | node node nodes env scope => cases hlooked

/-- Nothing that happens in the course of a call is deeper than a path of edges allows. -/
theorem Unfolds.shallow {world after : World} {happenings : List Happening}
    (h : runner.Unfolds world call happenings after) (hcall : call.OfTree)
    (hlongest : ∀ path, List.IsChain runner.tree.Leads path → path.length ≤ longest + 1) :
    ∀ happening ∈ happenings, happening.Shallow longest := by
  have hlevel : call.level ≤ longest + 1 := by cases call <;> simp [Call.level]
  cases h with
  | scope hlooked hunfolds =>
    exact hunfolds.shallow hlongest (behind_of_looked hcall hlooked) hlevel
  | unlooked _ _ => exact List.forall_mem_nil _
  | pool hbranch hloop => exact hloop.shallow hlongest (behind_of_branch hbranch) hlevel
  | noPool _ => exact List.forall_mem_nil _
  | node _ _ _ => exact hcall.elim

/-- A call of a tree whose for-each components do not repeat each other in circles ends. -/
theorem perform_completes (hregistry : runner.registry.WithinStandard)
    (hirrefl : ∀ node, ¬ TransGen runner.tree.Repeats node node) (hcall : call.OfTree)
    (session : Session) : (runner.perform call session).1.ending.Completes := by
  by_cases hlooks : call.Looks
  · cases hlooked : runner.looked? call with
    | none =>
      obtain ⟨e, hperform⟩ := perform_of_unlooked hlooks hlooked session
      rw [hperform]
      trivial
    | some found =>
      rw [perform_of_looked hlooked session]
      refine Ending.completes_map.mpr (run_completes_of_within hregistry hirrefl ?_ _ _)
      exact fun node hnode => (behind_of_looked hcall hlooked node hnode).1
  · cases call with
    | pool source label envs =>
      refine Ending.completes_map.mpr
        (Engine.runPool_total (fun nodes hbranch node hnode => ?_) envs session.world)
      exact Engine.ends_of_irreflexive hregistry hirrefl (Nat.le_add_right _ _)
        (behind_of_branch hbranch node hnode).1
    | node node nodes env scope => exact hcall.elim
    | _ => exact absurd trivial hlooks

/-- In a tree whose edges lead in no circle, whatever workflows they cross, every call with standard
block types comes to an end, from every environment and state. The runs that begin in its course
have components only as many branches deep as a longest path has edges; a run without components may
be one branch deeper. -/
theorem nests_within_longest_path (hregistry : runner.registry.WithinStandard)
    (hacyclic : ∀ node, ¬ TransGen runner.tree.Leads node node) (call : Call)
    (hcall : call.OfTree) (session : Session) :
    (runner.perform call session).1.ending.Completes ∧
    (∃ happenings after, runner.Unfolds session.world call happenings after) ∧
    ∀ happenings after, runner.Unfolds session.world call happenings after →
      (runner.perform call session).2.world = after ∧
      ∀ level nodes, .began level nodes ∈ happenings →
        level ≤ runner.tree.longestPath + 1 ∧ (nodes ≠ [] → level ≤ runner.tree.longestPath) := by
  have hirrefl : ∀ node, ¬ TransGen runner.tree.Repeats node node := fun node hcircle =>
    hacyclic node (TransGen.mono (fun _ _ => Tree.Repeats.leads) node node hcircle)
  refine ⟨perform_completes hregistry hirrefl hcall session,
    runner.exists_unfolds session.world call, fun happenings after hunfolds => ?_⟩
  exact ⟨hunfolds.world_eq, fun level nodes =>
    hunfolds.shallow hcall (Tree.length_le_longestPath hacyclic) (.began level nodes)⟩

end Runner

namespace Sample

/-- A for-each component repeats one of another workflow, which has no edge for its branch. -/
def handover : Runner where
  registry := .standard
  tree :=
    { nodes :=
        [{ id := "v", type := Node.workflowType },
         { id := "f", type := ForEach.type, parent? := some "v"
           content := [("items", .list [.null])], outs := [⟨ForEach.loopLabel, "g"⟩] },
         { id := "w", type := Node.workflowType },
         { id := "g", type := ForEach.type, parent? := some "w"
           content := [("items", .list [.null])] }]
      distinct := by decide +kernel }
  nesting := 0

/-- The only edge leads from the one for-each component to the other. -/
theorem ids_of_leads_handover {outer inner : Node} (hleads : handover.tree.Leads outer inner) :
    outer.id = "f" ∧ inner.id = "g" := by
  have houter := hleads.outer_mem
  obtain ⟨out, hout, htarget⟩ := hleads.target
  simp only [handover, List.mem_cons, List.not_mem_nil, or_false] at houter
  obtain rfl | rfl | rfl | rfl := houter
  · cases hout
  · obtain rfl := List.mem_singleton.mp hout
    exact ⟨rfl, htarget.symm⟩
  · cases hout
  · cases hout

/-- So the edges lead in no circle. -/
theorem acyclic_handover (node : Node) : ¬ TransGen handover.tree.Leads node node := by
  intro hcircle
  obtain ⟨_, hfirst, _⟩ := TransGen.head'_iff.mp hcircle
  obtain ⟨_, _, hlast⟩ := TransGen.tail'_iff.mp hcircle
  have hids := (ids_of_leads_handover hfirst).1.symm.trans (ids_of_leads_handover hlast).2
  exact absurd hids (by decide)

/-- No path has more than one edge. -/
theorem longestPath_handover : handover.tree.longestPath ≤ 1 := by
  obtain ⟨path, hpath, hlength⟩ := (Tree.isGreatest_longestPath acyclic_handover).1
  obtain _ | ⟨first, _ | ⟨second, _ | ⟨third, rest⟩⟩⟩ := path
  · cases hlength
  · simp_all
  · simp_all
  · obtain ⟨hfirst, hrest⟩ := List.isChain_cons_cons.mp hpath
    obtain ⟨hsecond, _⟩ := List.isChain_cons_cons.mp hrest
    have hids := (ids_of_leads_handover hfirst).2.symm.trans (ids_of_leads_handover hsecond).1
    exact absurd hids (by decide)

end Sample

/-- Nothing runs more than one branch deep, where the second component repeats nothing. -/
theorem Runner.nests_within_longest_path_handover :
    ∃ happenings after, Sample.handover.registry.WithinStandard ∧
      (∀ node, ¬ TransGen Sample.handover.tree.Leads node node) ∧
      (Sample.handover.perform (.workflow "v" .empty) {}).1.ending.Completes ∧
      Sample.handover.Unfolds {} (.workflow "v" .empty) happenings after ∧
      ∀ level nodes, .began level nodes ∈ happenings → level ≤ 2 ∧ (nodes ≠ [] → level ≤ 1) := by
  obtain ⟨hcompletes, ⟨happenings, after, hunfolds⟩, hlevels⟩ :=
    Runner.nests_within_longest_path Registry.withinStandard_standard Sample.acyclic_handover
      (.workflow "v" .empty) trivial {}
  refine ⟨happenings, after, Registry.withinStandard_standard, Sample.acyclic_handover, hcompletes,
    hunfolds, fun level nodes hbegan => ?_⟩
  have hlongest := Sample.longestPath_handover
  obtain ⟨hall, hsome⟩ := (hlevels happenings after hunfolds).2 level nodes hbegan
  exact ⟨hall.trans (Nat.succ_le_succ hlongest), fun hne => (hsome hne).trans hlongest⟩

namespace Sample

/-- A for-each component with one item and no edge to anything that it could repeat. -/
def loneLoop : Node :=
  { id := "f", type := ForEach.type, parent? := some "w", content := [("items", .list [.null])] }

def lone : Runner where
  registry := .standard
  tree :=
    { nodes := [{ id := "w", type := Node.workflowType }, loneLoop]
      distinct := by decide +kernel }
  nesting := 0

/-- There is no edge at all. -/
theorem not_leads_lone {outer inner : Node} : ¬ lone.tree.Leads outer inner := by
  intro hleads
  have houter := hleads.outer_mem
  obtain ⟨out, hout, _⟩ := hleads.target
  simp only [lone, List.mem_cons, List.not_mem_nil, or_false] at houter
  obtain rfl | rfl := houter
  · cases hout
  · cases hout

theorem acyclic_lone (node : Node) : ¬ TransGen lone.tree.Leads node node := by
  intro hcircle
  obtain ⟨_, hfirst, _⟩ := TransGen.head'_iff.mp hcircle
  exact not_leads_lone hfirst

theorem longestPath_lone : lone.tree.longestPath = 0 := by
  obtain ⟨path, hpath, hlength⟩ := (Tree.isGreatest_longestPath acyclic_lone).1
  obtain _ | ⟨first, _ | ⟨second, rest⟩⟩ := path
  · cases hlength
  · simp_all
  · exact absurd (List.isChain_cons_cons.mp hpath).1 not_leads_lone

/-- Wherever its block runs, the component repeats nothing at all, once. -/
theorem repeats_lone {run : BlockRun} (hnode : run.node = loneLoop) :
    run.repeats? lone.tree = some ([], [ForEach.itemEnv run.env (.int 0) .null]) := by
  obtain ⟨node, env, before, ending, after⟩ := run
  obtain rfl : node = loneLoop := hnode
  exact BlockRun.repeats?_eq_some_iff.mpr ⟨rfl, ⟨.list [.null], rfl, rfl⟩, rfl⟩

/-- However its run unfolds, the component begins to repeat nothing. -/
theorem began_lone {happenings : List Happening} {after : World}
    (h : lone.Unfolds {} (.workflow "w" .empty) happenings after) :
    .began 1 [] ∈ happenings := by
  have hlooked : lone.looked? (.workflow "w" .empty) = some ([loneLoop], .empty) := rfl
  have hstarted : (lone.runNodes (lone.branches lone.depth) [loneLoop] .empty
      { world := {} }).2.scope.started = ["f"] := by decide +kernel
  cases h with
  | unlooked _ hunlooked => cases hunlooked.symm.trans hlooked
  | scope hfound hunfolds =>
    cases hfound.symm.trans hlooked
    cases hunfolds with
    | @scope _ _ _ _ _ attempts _ _ _ hrun hpulls hcomprise =>
      rw [hrun] at hstarted
      obtain ⟨run, hmem, hnode, _⟩ :=
        hpulls.exists_blockRun (hstarted.symm ▸ List.mem_singleton_self "f")
      exact List.mem_cons_of_mem _
        (Engine.Comprise.began_of_mem hcomprise hmem (repeats_lone (List.mem_singleton.mp hnode)))

end Sample

/-- The edges lead in no circle and no path has any, but a run begins one branch deep: a for-each
component repeats nothing for its item. -/
theorem Runner.nests_past_longest_path :
    Sample.lone.registry.WithinStandard ∧
      (∀ node, ¬ TransGen Sample.lone.tree.Leads node node) ∧
      Sample.lone.tree.longestPath = 0 ∧
      (∃ happenings after, Sample.lone.Unfolds {} (.workflow "w" .empty) happenings after) ∧
      ∀ happenings after, Sample.lone.Unfolds {} (.workflow "w" .empty) happenings after →
        .began 1 [] ∈ happenings :=
  ⟨Registry.withinStandard_standard, Sample.acyclic_lone, Sample.longestPath_lone,
    Sample.lone.exists_unfolds {} _, fun _ _ => Sample.began_lone⟩

end Workflow
