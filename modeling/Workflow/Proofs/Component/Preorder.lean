import Mathlib.Data.List.Nodup
import Workflow.Proofs.Component.Containers
import Workflow.Proofs.Component.Descendants

namespace Workflow

open Relation

/-- Containment, but for that of the root itself: a chain of these does not pass the root. -/
def Beneath (nodes : List Node) (root id container : String) : Prop :=
  id ≠ root ∧ ContainedIn nodes id container

section Beneath

variable {nodes : List Node} {root id container other : String}

/-- From a component other than the root there is one way up at most. -/
theorem beneath_rightUnique (hnodup : (nodes.map Node.id).Nodup) (root : String) :
    Relator.RightUnique (Beneath nodes root) :=
  fun _ _ _ h hother => containedIn_rightUnique hnodup h.2 hother.2

/-- Nothing leads on from the root. -/
theorem Beneath.not_transGen_root : ¬ TransGen (Beneath nodes root) root other := by
  intro h
  obtain ⟨_, hstep, _⟩ := TransGen.head'_iff.mp h
  exact hstep.1 rfl

/-- What is below the root is not below itself. -/
theorem Beneath.not_transGen_self (hnodup : (nodes.map Node.id).Nodup)
    (h : ReflTransGen (Beneath nodes root) id root) : ¬ TransGen (Beneath nodes root) id id := by
  induction h using ReflTransGen.head_induction_on with
  | refl => exact not_transGen_root
  | head hstep _ ih =>
    intro hloop
    obtain ⟨between, hfirst, hback⟩ := TransGen.head'_iff.mp hloop
    obtain rfl := beneath_rightUnique hnodup root hstep hfirst
    exact ih (.tail' hback hstep)

/-- What is contained in another component is below the root as soon as it leads there: the chain is
cut where it meets the root first. -/
theorem Beneath.of_containedIn (hne : id ≠ root) (h : TransGen (ContainedIn nodes) id root) :
    TransGen (Beneath nodes root) id root := by
  induction h using TransGen.head_induction_on with
  | single hstep => exact .single ⟨hne, hstep⟩
  | @head id container hstep _ ih =>
    obtain rfl | hroot := eq_or_ne container root
    · exact .single ⟨hne, hstep⟩
    · exact .head ⟨hne, hstep⟩ (ih hroot)

/-- A chain that comes to the root first does not come to a component without passing the root. -/
theorem Beneath.not_transGen_of_root_first (hnodup : (nodes.map Node.id).Nodup)
    (hne : other ≠ root) (h : TransGen (Beneath nodes other) id root) :
    ¬ TransGen (Beneath nodes root) id other := by
  induction h using TransGen.head_induction_on with
  | single hstep =>
    intro hpath
    obtain ⟨between, hfirst, hrest⟩ := TransGen.head'_iff.mp hpath
    obtain rfl := containedIn_rightUnique hnodup hstep.2 hfirst.2
    obtain rfl | hrest := reflTransGen_iff_eq_or_transGen.mp hrest
    · exact hne rfl
    · exact not_transGen_root hrest
  | head hstep hon ih =>
    intro hpath
    obtain ⟨between, hfirst, hrest⟩ := TransGen.head'_iff.mp hpath
    obtain rfl := containedIn_rightUnique hnodup hstep.2 hfirst.2
    obtain rfl | hrest := reflTransGen_iff_eq_or_transGen.mp hrest
    · exact not_transGen_root hon
    · exact ih hrest

end Beneath

namespace Tree

variable {tree : Tree} {root : String}

/-- What a component contains directly, in order. The root is left out. -/
def children (tree : Tree) (root parent : String) : List Node :=
  tree.nodes.filter fun node => node.parent? = some parent ∧ node.id ≠ root

/-- What is below a component down to some depth, each followed by what is below it. -/
def preorder (tree : Tree) (root : String) : (depth : Nat) → String → List Node
  | 0, _ => []
  | depth + 1, parent =>
    (tree.children root parent).flatMap fun node => node :: preorder tree root depth node.id

/-- The children of a component are those that name it as their container, without the root. -/
theorem mem_children {parent : String} {node : Node} :
    node ∈ tree.children root parent ↔
      node ∈ tree.nodes ∧ node.parent? = some parent ∧ node.id ≠ root := by
  simp [children]

theorem beneath_of_mem_children {parent : String} {node : Node}
    (h : node ∈ tree.children root parent) : Beneath tree.nodes root node.id parent := by
  obtain ⟨hnode, hparent, hne⟩ := mem_children.mp h
  exact ⟨hne, node, hnode, rfl, hparent⟩

theorem mem_children_of_beneath {parent : String} {node : Node} (hnode : node ∈ tree.nodes)
    (h : Beneath tree.nodes root node.id parent) : node ∈ tree.children root parent :=
  mem_children.mpr ⟨hnode, h.2.parent?_eq tree.distinct hnode, h.1⟩

/-- What is listed below a component are its children and what is listed below them. -/
theorem mem_preorder_succ {depth : Nat} {parent : String} {node : Node} :
    node ∈ tree.preorder root (depth + 1) parent ↔
      ∃ child ∈ tree.children root parent,
        node = child ∨ node ∈ tree.preorder root depth child.id := by
  simp [preorder]

/-- Nothing is listed but what is below. -/
theorem beneath_of_mem_preorder {depth : Nat} {parent : String} {node : Node}
    (h : node ∈ tree.preorder root depth parent) :
    node ∈ tree.nodes ∧ TransGen (Beneath tree.nodes root) node.id parent := by
  induction depth generalizing parent with
  | zero => cases h
  | succ depth ih =>
    obtain ⟨child, hchild, rfl | hbelow⟩ := mem_preorder_succ.mp h
    · exact ⟨(mem_children.mp hchild).1, .single (beneath_of_mem_children hchild)⟩
    · obtain ⟨hnode, hpath⟩ := ih hbelow
      exact ⟨hnode, hpath.tail (beneath_of_mem_children hchild)⟩

/-- Children of one component have nothing below them in common. -/
theorem eq_of_common_descendant {parent id : String}
    (hparent : ReflTransGen (Beneath tree.nodes root) parent root) {child other : Node}
    (hchild : child ∈ tree.children root parent) (hother : other ∈ tree.children root parent)
    (hbelow : ReflTransGen (Beneath tree.nodes root) id child.id)
    (hbelowOther : ReflTransGen (Beneath tree.nodes root) id other.id) : child.id = other.id := by
  have hunique := beneath_rightUnique tree.distinct root
  have hturn : ∀ first ∈ tree.children root parent, ∀ second ∈ tree.children root parent,
      ReflTransGen (Beneath tree.nodes root) first.id second.id → first.id = second.id := by
    intro first hfirst second hsecond hpath
    obtain heq | ⟨between, hstep, hrest⟩ := hpath.cases_head
    · exact heq
    · obtain rfl := hunique (beneath_of_mem_children hfirst) hstep
      have hloop := TransGen.tail' hrest (beneath_of_mem_children hsecond)
      exact absurd hloop (Beneath.not_transGen_self tree.distinct hparent)
  obtain hpath | hpath := hbelow.total_of_right_unique hunique hbelowOther
  · exact hturn child hchild other hother hpath
  · exact (hturn other hother child hchild hpath).symm

/-- Nothing below the root is listed twice. Containers may form loops, and the root may be contained
in what is below it, but it is the only component that would be met again: every other one has a
single way up to the root. -/
theorem nodup_preorder {depth : Nat} {parent : String}
    (hparent : ReflTransGen (Beneath tree.nodes root) parent root) :
    ((tree.preorder root depth parent).map Node.id).Nodup := by
  induction depth generalizing parent with
  | zero => exact .nil
  | succ depth ih =>
    have hreach : ∀ child : Node, ∀ id ∈ (child :: tree.preorder root depth child.id).map Node.id,
        ReflTransGen (Beneath tree.nodes root) id child.id := by
      intro child id hid
      obtain ⟨node, hnode, rfl⟩ := List.mem_map.mp hid
      obtain rfl | hbelow := List.mem_cons.mp hnode
      · exact .refl
      · exact (beneath_of_mem_preorder hbelow).2.to_reflTransGen
    rw [preorder, List.map_flatMap, List.nodup_flatMap]
    constructor
    · intro child hchild
      have hroot := hparent.head (beneath_of_mem_children hchild)
      rw [List.map_cons, List.nodup_cons]
      refine ⟨fun hmem => ?_, ih hroot⟩
      obtain ⟨node, hnode, hid⟩ := List.mem_map.mp hmem
      have hpath := (beneath_of_mem_preorder hnode).2
      rw [hid] at hpath
      exact Beneath.not_transGen_self tree.distinct hroot hpath
    · have hdistinct : (tree.children root parent).Pairwise fun child other =>
          child.id ≠ other.id := by
        have hids := tree.distinct
        rw [List.Nodup, List.pairwise_map] at hids
        exact hids.filter _
      refine hdistinct.imp_of_mem ?_
      intro child other hchild hother hne id hid hidOther
      exact hne (eq_of_common_descendant hparent hchild hother (hreach child id hid)
        (hreach other id hidOther))

/-- The search lists what is below a component behind what it has listed already, if none of that
is listed. -/
theorem collect_eq_append {depth : Nat} {parent : String} {listed : List Node}
    (hnodup : ((listed ++ tree.preorder root depth parent).map Node.id).Nodup) :
    tree.collect root depth parent listed = listed ++ tree.preorder root depth parent := by
  induction depth generalizing parent listed with
  | zero => exact (List.append_nil _).symm
  | succ depth ih =>
    rw [collect_succ]
    rw [preorder, children] at hnodup ⊢
    generalize tree.nodes = nodes at hnodup ⊢
    induction nodes generalizing listed with
    | nil => exact (List.append_nil _).symm
    | cons node rest ihNodes =>
      rw [List.foldl_cons]
      by_cases hchild : node.parent? = some parent ∧ node.id ≠ root
      · have hsplit : ∀ others, listed ++ (node :: tree.preorder root depth node.id ++ others) =
            listed ++ [node] ++ tree.preorder root depth node.id ++ others := by simp
        rw [List.filter_cons_of_pos (by simpa using hchild), List.flatMap_cons, hsplit] at hnodup ⊢
        have hbelow : ((listed ++ [node] ++ tree.preorder root depth node.id).map
            Node.id).Nodup := by
          rw [List.map_append] at hnodup
          exact hnodup.of_append_left
        have hnew : node.id ∉ listed.map Node.id := by
          rw [List.append_assoc, List.map_append, List.nodup_append] at hbelow
          exact fun hmem => hbelow.2.2 node.id hmem node.id (by simp) rfl
        rw [visit, if_pos ⟨hchild.1, hchild.2, hnew⟩, ih hbelow]
        exact ihNodes hnodup
      · rw [List.filter_cons_of_neg (by simpa using hchild)] at hnodup ⊢
        rw [visit, if_neg fun hnew => hchild ⟨hnew.1, hnew.2.1⟩]
        exact ihNodes hnodup

/-- What is below a component, as deep as it goes. -/
def subtree (tree : Tree) (root parent : String) : List Node :=
  tree.preorder root (tree.nodes.length + 1) parent

/-- The search below a component that leads up to the root is the plain preorder. -/
theorem collect_eq_preorder {depth : Nat} {parent : String}
    (hparent : ReflTransGen (Beneath tree.nodes root) parent root) :
    tree.collect root depth parent [] = tree.preorder root depth parent :=
  collect_eq_append (nodup_preorder hparent)

theorem descendants_eq_subtree : tree.descendants root = tree.subtree root root :=
  collect_eq_preorder .refl

/-- The components below a component are those that it contains, each followed by the components
below it. -/
theorem subtree_eq {parent : String}
    (hparent : ReflTransGen (Beneath tree.nodes root) parent root) :
    tree.subtree root parent =
      (tree.children root parent).flatMap fun child => child :: tree.subtree root child.id := by
  have hall : (tree.unlisted []).length = tree.nodes.length := by simp [unlisted]
  have hdeeper : tree.subtree root parent = tree.preorder root (tree.nodes.length + 2) parent := by
    rw [subtree, ← collect_eq_preorder hparent, ← collect_eq_preorder hparent]
    exact collect_eq_of_lt (by omega) (by omega)
  exact hdeeper

/-- Everything below a component is listed. -/
theorem mem_subtree_of_beneath {node : Node} (hnode : node ∈ tree.nodes) {parent : String}
    (h : TransGen (Beneath tree.nodes root) node.id parent)
    (hparent : ReflTransGen (Beneath tree.nodes root) parent root) :
    node ∈ tree.subtree root parent := by
  induction h with
  | single hstep =>
    rw [subtree_eq hparent, List.mem_flatMap]
    exact ⟨node, mem_children_of_beneath hnode hstep, List.mem_cons_self⟩
  | tail _ hstep ih =>
    have hbelow := ih (hparent.head hstep)
    obtain ⟨child, hchild, rfl, _⟩ := hstep.2
    rw [subtree_eq hparent, List.mem_flatMap]
    exact ⟨child, mem_children_of_beneath hchild hstep, List.mem_cons_of_mem _ hbelow⟩

/-- A component that is not contained in the first one comes after its container. -/
theorem container_sublist_preorder {depth : Nat} {parent container : String} {node : Node}
    (hnode : node ∈ tree.preorder root depth parent) (hcontainer : node.parent? = some container)
    (hne : container ≠ parent) :
    ∃ above, above.id = container ∧ [above, node].Sublist (tree.preorder root depth parent) := by
  induction depth generalizing parent with
  | zero => cases hnode
  | succ depth ih =>
    obtain ⟨child, hchild, rfl | hbelow⟩ := mem_preorder_succ.mp hnode
    · have hparent := (mem_children.mp hchild).2.1
      exact absurd (Option.some.inj (hcontainer.symm.trans hparent)) hne
    · have hpart : (child :: tree.preorder root depth child.id).Sublist
          (tree.preorder root (depth + 1) parent) := by
        rw [preorder, List.flatMap]
        exact List.sublist_flatten_of_mem (List.mem_map_of_mem hchild)
      by_cases hdirect : container = child.id
      · have hpair : [child, node].Sublist (child :: tree.preorder root depth child.id) :=
          (List.singleton_sublist.mpr hbelow).cons_cons child
        exact ⟨child, hdirect.symm, hpair.trans hpart⟩
      · obtain ⟨above, habove, hpair⟩ := ih hbelow hdirect
        exact ⟨above, habove, (hpair.cons child).trans hpart⟩

/-- The components that are left out may as well be listed with nothing. -/
private theorem flatMap_filter {α β : Type} (keep : α → Bool) (list : α → List β) (l : List α) :
    (l.filter keep).flatMap list = l.flatMap fun a => if keep a then list a else [] := by
  induction l with
  | nil => rfl
  | cons a rest ih => cases hkeep : keep a <;> simp [hkeep, ih]

/-- Nothing in the part below the root leads to a component without passing the root. -/
theorem not_transGen_of_mem_preorder {child : String} (hne : child ≠ root) {depth : Nat}
    {node above : Node} (habove : above.id = root)
    (hnode : node ∈ above :: tree.preorder child depth above.id) :
    ¬ TransGen (Beneath tree.nodes root) node.id child := by
  obtain rfl | hbelow := List.mem_cons.mp hnode
  · rw [habove]
    exact Beneath.not_transGen_root
  · have hpath := (beneath_of_mem_preorder hbelow).2
    rw [habove] at hpath
    exact Beneath.not_transGen_of_root_first tree.distinct hne hpath

open Classical in
/-- What is below a child of the root are the components below it when it is the root itself, but
for those whose way up to it passes the root. -/
theorem filter_preorder {child : String} (hne : child ≠ root)
    (hchild : ContainedIn tree.nodes child root) {depth : Nat} {parent : String}
    (hparent : ReflTransGen (Beneath tree.nodes root) parent child) :
    (tree.preorder child depth parent).filter
        (fun node => TransGen (Beneath tree.nodes root) node.id child) =
      tree.preorder root depth parent := by
  induction depth generalizing parent with
  | zero => rfl
  | succ depth ih =>
    rw [preorder, preorder, children, children, List.filter_flatMap, flatMap_filter,
      flatMap_filter]
    refine List.flatMap_congr fun node hnode => ?_
    simp only [decide_eq_true_eq]
    by_cases hcontained : node.parent? = some parent
    · have hstep : ContainedIn tree.nodes node.id parent := ⟨node, hnode, rfl, hcontained⟩
      by_cases hroot : node.id = root
      · -- The search for the child goes on below the root, the other one does not.
        have hself : node.id ≠ child := fun heq => hne (heq.symm.trans hroot)
        rw [if_pos ⟨hcontained, hself⟩, if_neg fun h => h.2 hroot, List.filter_eq_nil_iff]
        intro below hbelow hpath
        exact not_transGen_of_mem_preorder hne hroot hbelow (of_decide_eq_true hpath)
      · have hself : node.id ≠ child := by
          -- The child is contained in the root alone, and no way leads from there to the child.
          intro heq
          obtain rfl := containedIn_rightUnique tree.distinct (heq ▸ hstep) hchild
          obtain heq | hpath := reflTransGen_iff_eq_or_transGen.mp hparent
          · exact hne heq
          · exact Beneath.not_transGen_root hpath
        have hpath : ReflTransGen (Beneath tree.nodes root) node.id child :=
          hparent.head ⟨hroot, hstep⟩
        rw [if_pos ⟨hcontained, hself⟩, if_pos ⟨hcontained, hroot⟩, List.filter_cons_of_pos,
          ih hpath]
        exact decide_eq_true (.head' ⟨hroot, hstep⟩ hparent)
    · rw [if_neg fun h => hcontained h.1, if_neg fun h => hcontained h.1]

/-- What is below a root are the components from which following containers leads to it. -/
theorem mem_descendants_iff {node : Node} :
    node ∈ tree.descendants root ↔
      node ∈ tree.nodes ∧ node.id ≠ root ∧ TransGen (ContainedIn tree.nodes) node.id root := by
  have hcontained : Beneath tree.nodes root ≤ ContainedIn tree.nodes := fun _ _ hstep => hstep.2
  rw [descendants_eq_subtree]
  constructor
  · intro hnode
    obtain ⟨hmem, hpath⟩ := beneath_of_mem_preorder hnode
    refine ⟨hmem, ?_, TransGen.mono hcontained _ _ hpath⟩
    intro heq
    rw [heq] at hpath
    exact Beneath.not_transGen_root hpath
  · rintro ⟨hmem, hne, hpath⟩
    exact mem_subtree_of_beneath hmem (Beneath.of_containedIn hne hpath) .refl

open Classical in
/-- What is below a root are its children, each followed by what is below it, as far as the way up
to it does not pass the root. -/
theorem descendants_eq_flatMap (tree : Tree) (root : String) :
    tree.descendants root = (tree.children root root).flatMap fun child =>
      child :: (tree.descendants child.id).filter fun node =>
        TransGen (Beneath tree.nodes root) node.id child.id := by
  rw [descendants_eq_subtree, subtree_eq .refl]
  refine List.flatMap_congr fun child hchild => ?_
  obtain ⟨hmem, hparent, hne⟩ := mem_children.mp hchild
  have hcontained : ContainedIn tree.nodes child.id root := ⟨child, hmem, rfl, hparent⟩
  rw [descendants_eq_subtree, subtree, subtree, filter_preorder hne hcontained .refl]

open Classical in
/-- The components below a root are those from which following containers leads to it, but for the
root itself, each once, and none of them before its container. The search for them ends by itself.
They are those that the root contains directly, in the order of the tree, each followed by those
below it from which containers lead to it without passing the root. -/
theorem descendants_preorder (tree : Tree) (root : String) :
    tree.Collects root root tree.nodes [] (tree.descendants root) ∧
      ((tree.descendants root).map Node.id).Nodup ∧
      (∀ node, node ∈ tree.descendants root ↔
        node ∈ tree.nodes ∧ node.id ≠ root ∧ TransGen (ContainedIn tree.nodes) node.id root) ∧
      (∀ node ∈ tree.descendants root, ∀ container, node.parent? = some container →
        container ≠ root →
          ∃ above, above.id = container ∧ [above, node].Sublist (tree.descendants root)) ∧
      tree.descendants root =
        (tree.nodes.filter fun child => child.parent? = some root ∧ child.id ≠ root).flatMap
          fun child => child :: (tree.descendants child.id).filter fun node =>
            TransGen (Beneath tree.nodes root) node.id child.id := by
  have hall : (tree.unlisted []).length = tree.nodes.length := by simp [unlisted]
  refine ⟨collects_collect _ _ _ (by omega), tree.nodup_descendants root,
    fun _ => mem_descendants_iff, ?_, tree.descendants_eq_flatMap root⟩
  intro node hnode container hcontainer hne
  rw [descendants_eq_subtree] at hnode ⊢
  exact container_sublist_preorder hnode hcontainer hne

/-- The components `a` and `b` contain each other, and each of them one more. -/
def Sample.coiled : Tree where
  nodes :=
    [{ id := "a", type := "step", parent? := some "b" },
     { id := "c", type := "step", parent? := some "a" },
     { id := "b", type := "step", parent? := some "a" },
     { id := "d", type := "step", parent? := some "b" }]
  distinct := by decide

/-- Below `b` comes `a` with what is below it, and below `a` comes `b` with the rest. -/
example : (Sample.coiled.descendants "a").map Node.id = ["c", "b", "d"] ∧
    (Sample.coiled.descendants "b").map Node.id = ["a", "c", "d"] := by decide

end Tree

end Workflow
