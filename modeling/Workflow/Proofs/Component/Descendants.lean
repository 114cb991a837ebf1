import Mathlib.Data.List.Perm.Subperm
import Workflow.Proofs.Component.Tree

namespace Workflow.Tree

variable {tree larger : Tree} {root : String}

/-- Lists a component that is contained in `parent`, and those below it, if it is not listed yet. -/
def visit (tree : Tree) (root : String) (depth : Nat) (parent : String) (listed : List Node)
    (node : Node) : List Node :=
  if node.parent? = some parent ∧ node.id ≠ root ∧ node.id ∉ listed.map Node.id then
    tree.collect root depth node.id (listed ++ [node])
  else listed

/-- The search below a component visits the components of the tree one after the other. -/
theorem collect_succ (depth : Nat) (parent : String) (listed : List Node) :
    tree.collect root (depth + 1) parent listed =
      tree.nodes.foldl (tree.visit root depth parent) listed := rfl

/-- What is listed stays listed. -/
theorem subset_collect (depth : Nat) (parent : String) (listed : List Node) :
    listed ⊆ tree.collect root depth parent listed :=
  collect_induction (motive := (listed ⊆ ·))
    (fun _ hlisted _ _ _ _ _ => List.Subset.trans hlisted (List.subset_append_left _ _)) depth
    parent listed
    (List.Subset.refl _)

/-- A visit takes nothing off the list. -/
theorem subset_visit (depth : Nat) (parent : String) (listed : List Node) (node : Node) :
    listed ⊆ tree.visit root depth parent listed node := by
  unfold visit
  split
  · exact List.Subset.trans (List.subset_append_left _ _) (subset_collect _ _ _)
  · exact List.Subset.refl _

theorem subset_foldl_visit (depth : Nat) (parent : String) (nodes listed : List Node) :
    listed ⊆ nodes.foldl (tree.visit root depth parent) listed :=
  List.foldlRecOn nodes _ (List.Subset.refl listed) fun _ hlisted _ _ =>
    List.Subset.trans hlisted (subset_visit _ _ _ _)

/-- The components of the tree that are not listed yet. -/
def unlisted (tree : Tree) (listed : List Node) : List Node :=
  tree.nodes.filter (·.id ∉ listed.map Node.id)

theorem length_unlisted_le {listed more : List Node} (h : listed ⊆ more) :
    (tree.unlisted more).length ≤ (tree.unlisted listed).length :=
  (unseen_sublist (List.map_subset _ h)).length_le

theorem length_unlisted_snoc_lt {listed : List Node} {node : Node} (hnode : node ∈ tree.nodes)
    (hnew : node.id ∉ listed.map Node.id) :
    (tree.unlisted (listed ++ [node])).length < (tree.unlisted listed).length :=
  length_unseen_lt (List.map_subset _ (List.subset_append_left _ _)) hnode hnew (by simp)

/-- The search through `nodes` for what is contained in `parent`, as deep as it goes: what is listed
before it and after it. -/
inductive Collects (tree : Tree) (root : String) :
    (parent : String) → (nodes listed after : List Node) → Prop
  /-- All components are looked at. -/
  | done {parent listed} : Collects tree root parent [] listed listed
  /-- A component is not contained in `parent`, or it is the root or listed already. -/
  | skips {parent node nodes listed after} :
      ¬ (node.parent? = some parent ∧ node.id ≠ root ∧ node.id ∉ listed.map Node.id) →
      Collects tree root parent nodes listed after →
      Collects tree root parent (node :: nodes) listed after
  /-- A component is listed, and those below it after it. -/
  | lists {parent node nodes listed between after} :
      node.parent? = some parent ∧ node.id ≠ root ∧ node.id ∉ listed.map Node.id →
      Collects tree root node.id tree.nodes (listed ++ [node]) between →
      Collects tree root parent nodes between after →
      Collects tree root parent (node :: nodes) listed after

/-- The search leaves no choice. -/
theorem Collects.unique {parent : String} {nodes listed after other : List Node}
    (h : tree.Collects root parent nodes listed after)
    (hother : tree.Collects root parent nodes listed other) : after = other := by
  induction h generalizing other with
  | done =>
    cases hother
    rfl
  | skips hold _ ih =>
    cases hother with
    | skips _ hrest => exact ih hrest
    | lists hnew _ _ => exact absurd hnew hold
  | lists hnew _ _ ihBelow ihRest =>
    cases hother with
    | skips hold _ => exact absurd hnew hold
    | lists _ hbelow hrest =>
      obtain rfl := ihBelow hbelow
      exact ihRest hrest

/-- The search is not cut short if it may go further down than there are components left. -/
theorem collects_collect (depth : Nat) : ∀ (parent : String) (listed : List Node),
    (tree.unlisted listed).length < depth →
      tree.Collects root parent tree.nodes listed (tree.collect root depth parent listed) := by
  induction depth with
  | zero => exact fun _ _ hdepth => absurd hdepth (Nat.not_lt_zero _)
  | succ depth ih =>
    intro parent listed hdepth
    rw [collect_succ]
    have hsteps : ∀ nodes more, nodes ⊆ tree.nodes → listed ⊆ more →
        tree.Collects root parent nodes more (nodes.foldl (tree.visit root depth parent) more) := by
      intro nodes
      induction nodes with
      | nil => exact fun _ _ _ => .done
      | cons node rest ihNodes =>
        intro more hnodes hmore
        obtain ⟨hnode, hrest⟩ := List.cons_subset.mp hnodes
        have hkept : listed ⊆ tree.visit root depth parent more node :=
          List.Subset.trans hmore (subset_visit _ _ _ _)
        have hvisited := ihNodes _ hrest hkept
        rw [List.foldl_cons]
        by_cases hnew : node.parent? = some parent ∧ node.id ≠ root ∧ node.id ∉ more.map Node.id
        · have hfewer := length_unlisted_snoc_lt hnode hnew.2.2
          have hle : (tree.unlisted more).length ≤ (tree.unlisted listed).length :=
            length_unlisted_le hmore
          rw [visit, if_pos hnew] at hvisited ⊢
          exact .lists hnew (ih _ _ (by omega)) hvisited
        · rw [visit, if_neg hnew] at hvisited ⊢
          exact .skips hnew hvisited
    exact hsteps tree.nodes listed (List.Subset.refl _) (List.Subset.refl _)

/-- The search finds the same, however much further down it may go than there are components
left. -/
theorem collect_eq_of_lt {depth deeper : Nat} {parent : String} {listed : List Node}
    (hdepth : (tree.unlisted listed).length < depth)
    (hdeeper : (tree.unlisted listed).length < deeper) :
    tree.collect root depth parent listed = tree.collect root deeper parent listed :=
  (collects_collect _ _ _ hdepth).unique (collects_collect _ _ _ hdeeper)

/-- The larger tree has the components of the tree, in their order, and others among them. -/
theorem filter_nodes_of_sublist (h : tree.nodes.Sublist larger.nodes) :
    larger.nodes.filter (·.id ∈ tree.ids) = tree.nodes := by
  have hsub : tree.nodes.Sublist (larger.nodes.filter (·.id ∈ tree.ids)) := by
    have hown : tree.nodes.filter (·.id ∈ tree.ids) = tree.nodes :=
      List.filter_eq_self.mpr fun node hnode => decide_eq_true (List.mem_map_of_mem hnode)
    rw [← hown]
    exact h.filter _
  have hback : larger.nodes.filter (·.id ∈ tree.ids) ⊆ tree.nodes := by
    intro node hnode
    obtain ⟨hnode, hid⟩ := List.mem_filter.mp hnode
    obtain ⟨other, hother, hsame⟩ := List.mem_map.mp (of_decide_eq_true hid)
    rwa [← List.inj_on_of_nodup_map larger.distinct (h.subset hother) hnode hsame]
  have hnodup := larger.distinct.of_map.filter (·.id ∈ tree.ids)
  exact (hsub.eq_of_length_le (hnodup.subperm hback).length_le).symm

/-- What the larger tree has besides the components of the tree is not contained in the component
with this id. -/
def Closed (tree larger : Tree) (id : String) : Prop :=
  ∀ node ∈ larger.nodes, node.id ∉ tree.ids → node.parent? ≠ some id

/-- Visiting the other components lists nothing. -/
theorem foldl_visit_of_closed (h : tree.nodes.Sublist larger.nodes) {parent : String}
    (hparent : tree.Closed larger parent) (depth : Nat) (listed : List Node) :
    larger.nodes.foldl (larger.visit root depth parent) listed =
      tree.nodes.foldl (larger.visit root depth parent) listed := by
  rw [← filter_nodes_of_sublist h, List.foldl_filter]
  refine List.foldl_ext _ _ _ fun listed node hnode => ?_
  by_cases hown : node.id ∈ tree.ids
  · simp [hown]
  · simp [hown, visit, hparent node hnode hown]

/-- The search lists the same in both trees if nothing of the larger one besides is contained in
what it lists. -/
theorem collect_eq_of_closed (h : tree.nodes.Sublist larger.nodes) {depth : Nat} {parent : String}
    {listed : List Node} (hparent : tree.Closed larger parent)
    (hlisted : ∀ node ∈ tree.collect root depth parent listed, tree.Closed larger node.id) :
    larger.collect root depth parent listed = tree.collect root depth parent listed := by
  induction depth generalizing parent listed with
  | zero => rfl
  | succ depth ih =>
    rw [collect_succ] at hlisted
    rw [collect_succ, collect_succ, foldl_visit_of_closed h hparent]
    generalize tree.nodes = nodes at hlisted ⊢
    induction nodes generalizing listed with
    | nil => rfl
    | cons node rest ihNodes =>
      rw [List.foldl_cons] at hlisted
      have hvisit : larger.visit root depth parent listed node =
          tree.visit root depth parent listed node := by
        by_cases hnew : node.parent? = some parent ∧ node.id ≠ root ∧ node.id ∉ listed.map Node.id
        · -- What is listed below the component stays listed, so nothing is added to it either.
          have hopen : tree.visit root depth parent listed node =
              tree.collect root depth node.id (listed ++ [node]) := if_pos hnew
          have hkept : tree.collect root depth node.id (listed ++ [node]) ⊆
              rest.foldl (tree.visit root depth parent)
                (tree.collect root depth node.id (listed ++ [node])) :=
            subset_foldl_visit depth parent rest _
          have hnode := hkept (subset_collect depth node.id _ (List.mem_append_right _ (.head _)))
          rw [hopen] at hlisted
          rw [hopen, visit, if_pos hnew]
          exact ih (hlisted node hnode) fun other hother => hlisted other (hkept hother)
        · rw [visit, visit, if_neg hnew, if_neg hnew]
      rw [List.foldl_cons, List.foldl_cons, hvisit]
      exact ihNodes hlisted

/-- Below a root that nothing is added to, directly or not, both trees have the same components. -/
theorem descendants_eq_of_closed (h : tree.nodes.Sublist larger.nodes)
    (hroot : tree.Closed larger root)
    (hbelow : ∀ node ∈ tree.descendants root, tree.Closed larger node.id) :
    larger.descendants root = tree.descendants root := by
  have hdepth : tree.collect root (larger.nodes.length + 1) root [] = tree.descendants root := by
    have hall : (tree.unlisted []).length = tree.nodes.length := by simp [unlisted]
    have hle := h.length_le
    exact collect_eq_of_lt (by omega) (by omega)
  rw [← hdepth] at hbelow ⊢
  exact collect_eq_of_closed h hroot hbelow

end Workflow.Tree
