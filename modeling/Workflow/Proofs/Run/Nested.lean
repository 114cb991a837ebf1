import Mathlib.Data.List.Chain
import Workflow.Proofs.Block.Total
import Workflow.Proofs.Component.Tree
import Workflow.Proofs.Run.Cycles
import Workflow.Proofs.Run.Runner

namespace Workflow

open Relation

/-- A for-each component repeats another one: an edge on its outcome for that leads there. -/
structure Tree.Repeats (tree : Tree) (outer inner : Node) : Prop where
  outer_mem : outer ∈ tree.nodes
  outer_type : outer.type = ForEach.type
  inner_mem : inner ∈ tree.nodes
  inner_type : inner.type = ForEach.type
  target : inner.id ∈ outer.targets ForEach.loopLabel

/-- Repeating from a component on goes less than `depth` levels deep. -/
def Tree.Within (tree : Tree) (depth : Nat) (node : Node) : Prop :=
  ∀ path, List.IsChain tree.Repeats (node :: path) → path.length < depth

variable {tree : Tree}

/-- What a component repeats goes one level less deep. -/
theorem Tree.Within.inner {depth : Nat} {outer inner : Node}
    (hwithin : tree.Within (depth + 1) outer) (hrepeats : tree.Repeats outer inner) :
    tree.Within depth inner := by
  intro path hpath
  have hlength := hwithin (inner :: path) (.cons_cons hrepeats hpath)
  rwa [List.length_cons, Nat.add_lt_add_iff_right] at hlength

theorem Tree.Within.mono {depth deeper : Nat} {node : Node} (hwithin : tree.Within depth node)
    (hle : depth ≤ deeper) : tree.Within deeper node :=
  fun path hpath => (hwithin path hpath).trans_le hle

/-- A chain that never comes back to a component of the tree is no longer than the tree. -/
theorem Tree.length_lt_of_isChain {follows : Node → Node → Prop}
    (hmem : ∀ {outer inner}, follows outer inner → inner ∈ tree.nodes)
    (hirrefl : ∀ node, ¬ TransGen follows node node) {node : Node} (hnode : node ∈ tree.nodes)
    {path : List Node} (hpath : List.IsChain follows (node :: path)) :
    path.length < tree.nodes.length := by
  have hpairwise : (node :: path).Pairwise (TransGen follows) :=
    List.isChain_iff_pairwise.mp (hpath.imp fun _ _ => .single)
  have hnodup : (node :: path).Nodup := by
    refine hpairwise.imp ?_
    rintro outer inner hfollows rfl
    exact hirrefl outer hfollows
  have hsubset : ∀ other ∈ node :: path, other ∈ tree.nodes := by
    intro other hother
    obtain rfl | hother := List.mem_cons.mp hother
    · exact hnode
    · have hfollows := (List.pairwise_cons.mp hpairwise).1 other hother
      obtain ⟨_, _, hlast⟩ := TransGen.tail'_iff.mp hfollows
      exact hmem hlast
  have hle := (hnodup.subperm hsubset).length_le
  rwa [List.length_cons, Nat.succ_le_iff] at hle

/-- Where no component repeats itself, directly or not, every chain is shorter than the tree. -/
theorem Tree.within_of_irreflexive (hirrefl : ∀ node, ¬ TransGen tree.Repeats node node)
    {node : Node} (hnode : node ∈ tree.nodes) : tree.Within tree.nodes.length node :=
  fun _ hpath => Tree.length_lt_of_isChain (fun h => h.inner_mem) hirrefl hnode hpath

private theorem exists_of_mem_mapM {α β ε : Type} {f : α → Except ε β} {l : List α}
    {results : List β} (hmap : l.mapM f = .ok results) {result : β} (hresult : result ∈ results) :
    ∃ a ∈ l, f a = .ok result := by
  induction l generalizing results with
  | nil =>
    obtain rfl := Except.ok.inj hmap
    exact absurd hresult List.not_mem_nil
  | cons a rest ih =>
    rw [List.mapM_cons] at hmap
    cases hfirst : f a with
    | error e => simp [hfirst, bind, Except.bind] at hmap
    | ok first =>
      cases hrest : rest.mapM f with
      | error e => simp [hfirst, hrest, bind, Except.bind] at hmap
      | ok others =>
        obtain rfl : first :: others = results := by
          simpa [hfirst, hrest, bind, Except.bind, pure, Except.pure] using hmap
        obtain rfl | hresult := List.mem_cons.mp hresult
        · exact ⟨a, List.mem_cons_self, hfirst⟩
        · obtain ⟨b, hb, hfound⟩ := ih hrest hresult
          exact ⟨b, List.mem_cons_of_mem a hb, hfound⟩

/-- The components behind an outcome are those of the tree with the ids of its targets. -/
theorem Tree.mem_of_branch {outer inner : Node} {label : String} {nodes : List Node}
    (houter : outer ∈ tree.nodes) (hbranch : tree.branch outer.id label = .ok nodes)
    (hinner : inner ∈ nodes) : inner ∈ tree.nodes ∧ inner.id ∈ outer.targets label := by
  simp only [Tree.branch, Tree.get?_eq_some_iff.mpr ⟨houter, rfl⟩] at hbranch
  obtain ⟨target, htarget, hfound⟩ := exists_of_mem_mapM hbranch hinner
  split at hfound
  · next found hget =>
    obtain rfl := Except.ok.inj hfound
    obtain ⟨hmem, rfl⟩ := Tree.get?_eq_some_iff.mp hget
    exact ⟨hmem, htarget⟩
  · cases hfound

namespace Engine

variable {engine : Engine} {branches : Branches}

/-- A run in a fresh scope ends if the blocks of its components do. -/
theorem runFresh_total {nodes : List Node} (hends : ∀ node ∈ nodes, engine.Ends branches node)
    (env : Environment) : (engine.runFresh branches nodes env).Total := by
  intro world
  obtain ⟨attempts, hpulls⟩ := engine.pulls_runNodes branches nodes env { world }
  exact hpulls.completes hends fun _ => mem_of_mem_terminals

/-- Iterations end if each of them does. -/
theorem iterate_total {run : Environment → Step World FlowError (Option Json)}
    (hrun : ∀ env, (run env).Total) (envs : List Environment) : (iterate run envs).Total := by
  induction envs with
  | nil => exact .pure _
  | cons env rest ih => exact .bind (.catchCrash (hrun env)) fun _ => .bind ih fun _ => .pure _

/-- A pool ends if the blocks of its branch do. -/
theorem runPool_total {source label : String}
    (hends : ∀ nodes, engine.tree.branch source label = .ok nodes →
      ∀ node ∈ nodes, engine.Ends branches node) (envs : List Environment) :
    (engine.runPool branches source label envs).Total := by
  unfold runPool
  split
  · exact .pure _
  · split
    · exact .error _
    · next nodes hbranch => exact iterate_total (runFresh_total (hends nodes hbranch)) envs

/-- The block of a component of a standard type ends if what it repeats does. -/
theorem ends_of_pool_total (hregistry : engine.registry.WithinStandard) {node : Node}
    (hpool : node.type = ForEach.type →
      ∀ envs, (branches.pool node.id ForEach.loopLabel envs).Total) :
    engine.Ends branches node := by
  intro block hcreate env world
  exact Registry.total_of_create_standard (hregistry.create_standard hcreate) hpool world

/-- What a for-each component repeats ends if repeating goes less deep than runs may nest. -/
theorem pool_total (hregistry : engine.registry.WithinStandard) (depth : Nat) : ∀ outer ∈
    engine.tree.nodes, outer.type = ForEach.type → engine.tree.Within depth outer →
      ∀ envs, ((engine.branches depth).pool outer.id ForEach.loopLabel envs).Total := by
  induction depth with
  | zero =>
    intro outer _ _ hwithin
    exact absurd (hwithin [] (.singleton outer)) (Nat.not_lt_zero _)
  | succ depth ih =>
    intro outer houter htype hwithin envs
    refine runPool_total ?_ envs
    intro nodes hbranch inner hinner
    obtain ⟨hmem, htarget⟩ := Tree.mem_of_branch houter hbranch hinner
    refine ends_of_pool_total hregistry fun hinner_type => ?_
    exact ih inner hmem hinner_type (hwithin.inner ⟨houter, htype, hmem, hinner_type, htarget⟩)

/-- Where no for-each component repeats itself, every standard block ends if runs may nest as often
as the tree has components. -/
theorem ends_of_irreflexive (hregistry : engine.registry.WithinStandard)
    (hirrefl : ∀ node, ¬ TransGen engine.tree.Repeats node node) {depth : Nat}
    (hdepth : engine.tree.nodes.length ≤ depth) {node : Node} (hnode : node ∈ engine.tree.nodes) :
    engine.Ends (engine.branches depth) node :=
  ends_of_pool_total hregistry fun htype =>
    pool_total hregistry depth node hnode htype
      ((Tree.within_of_irreflexive hirrefl hnode).mono hdepth)

end Engine

/-- A run of components of the tree comes to an end if its for-each components do not repeat each
other in circles, however little deeper than the tree has components runs may nest. -/
theorem Runner.run_completes_of_within {runner : Runner}
    (hregistry : runner.registry.WithinStandard)
    (hirrefl : ∀ node, ¬ TransGen runner.tree.Repeats node node) {nodes : List Node}
    (hnodes : ∀ node ∈ nodes, node ∈ runner.tree.nodes) (env : Environment) (session : Session) :
    (runner.run nodes env session).1.Completes := by
  rw [Runner.run_ending, Ending.completes_map]
  obtain ⟨attempts, hpulls⟩ :=
    runner.toEngine.pulls_runNodes runner.nested nodes env { world := session.world }
  refine hpulls.completes (fun node hnode => ?_) fun _ => mem_of_mem_terminals
  exact Engine.ends_of_irreflexive hregistry hirrefl (Nat.le_add_right _ _) (hnodes node hnode)

end Workflow
