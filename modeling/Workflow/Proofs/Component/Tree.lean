import Mathlib.Data.List.Nodup
import Workflow.Component.Tree

namespace Workflow.Tree

variable {tree : Tree} {root : String}

/-- A component is found by its id, and only by that. -/
theorem get?_eq_some_iff {id : String} {node : Node} :
    tree.get? id = some node ↔ node ∈ tree.nodes ∧ node.id = id := by
  have hsound : ∀ found, tree.get? id = some found → found ∈ tree.nodes ∧ found.id = id := by
    intro found hget
    obtain ⟨hid, _⟩ := List.find?_eq_some_iff_append.mp hget
    exact ⟨List.mem_of_find?_eq_some hget, eq_of_beq hid⟩
  constructor
  · exact hsound node
  · rintro ⟨hnode, rfl⟩
    obtain ⟨found, hget⟩ : ∃ found, tree.get? node.id = some found :=
      Option.isSome_iff_exists.mp (List.find?_isSome.mpr ⟨node, hnode, beq_self_eq_true _⟩)
    obtain ⟨hfound, hid⟩ := hsound found hget
    rw [hget, List.inj_on_of_nodup_map tree.distinct hfound hnode hid]

/-- The components whose ids are not in `seen`. -/
def unseen (tree : Tree) (seen : List String) : List Node := tree.nodes.filter (·.id ∉ seen)

/-- The more ids are seen, the fewer components are unseen. -/
theorem unseen_sublist {seen more : List String} (h : seen ⊆ more) :
    (tree.unseen more).Sublist (tree.unseen seen) := by
  refine List.monotone_filter_right tree.nodes fun node hnode => ?_
  simp only [decide_eq_true_eq] at hnode ⊢
  exact fun hmem => hnode (h hmem)

/-- One component less is unseen once it is seen. -/
theorem length_unseen_lt {seen more : List String} (h : seen ⊆ more) {node : Node}
    (hnode : node ∈ tree.nodes) (hnew : node.id ∉ seen) (hmore : node.id ∈ more) :
    (tree.unseen more).length < (tree.unseen seen).length := by
  have hsublist : (tree.unseen more).Sublist (tree.unseen seen) := unseen_sublist h
  refine Nat.lt_of_le_of_ne hsublist.length_le fun heq => ?_
  have hmem : node ∈ tree.unseen seen := List.mem_filter.mpr ⟨hnode, decide_eq_true hnew⟩
  rw [← hsublist.eq_of_length heq] at hmem
  exact of_decide_eq_true (List.mem_filter.mp hmem).2 hmore

/-- Whatever holds before the search below a root, and stays true as one more component is listed,
holds of the components that it finds. -/
theorem collect_induction {motive : List Node → Prop}
    (hadd : ∀ listed, motive listed → ∀ node ∈ tree.nodes, node.parent?.isSome = true →
      node.id ≠ root → node.id ∉ listed.map Node.id → motive (listed ++ [node]))
    (depth : Nat) : ∀ (parent : String) (listed : List Node), motive listed →
      motive (tree.collect root depth parent listed) := by
  induction depth with
  | zero => exact fun _ _ hlisted => hlisted
  | succ depth ih =>
    intro parent listed hlisted
    unfold collect
    refine List.foldlRecOn tree.nodes _ hlisted ?_
    intro listed hlisted node hnode
    split
    · next hnew =>
      obtain ⟨hparent, hroot, hid⟩ := hnew
      exact ih node.id _ (hadd listed hlisted node hnode (by simp [hparent]) hroot hid)
    · exact hlisted

/-- No component is listed twice. -/
theorem nodup_descendants (tree : Tree) (root : String) :
    ((tree.descendants root).map Node.id).Nodup := by
  refine collect_induction (motive := fun listed => (listed.map Node.id).Nodup) ?_ _ _ _ .nil
  intro listed hlisted node _ _ _ hid
  rw [List.map_append, List.map_singleton, List.nodup_append]
  refine ⟨hlisted, List.nodup_singleton _, ?_⟩
  rintro id hmem other hother rfl
  exact hid (List.mem_singleton.mp hother ▸ hmem)

/-- What is below a root is in the tree. -/
theorem mem_of_mem_descendants {node : Node} (hnode : node ∈ tree.descendants root) :
    node ∈ tree.nodes := by
  refine collect_induction (motive := fun listed => ∀ node ∈ listed, node ∈ tree.nodes) ?_ _ _ _
    (List.forall_mem_nil _) node hnode
  intro listed hlisted node hnode _ _ _ other hother
  obtain hother | hother := List.mem_append.mp hother
  · exact hlisted other hother
  · exact List.mem_singleton.mp hother ▸ hnode

end Workflow.Tree
