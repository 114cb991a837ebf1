import Mathlib.Logic.Relation
import Workflow.Proofs.Component.Tree

namespace Workflow

open Relation

/-- The component with the first id is contained in the one with the second, which need not be among
the components itself. -/
def ContainedIn (nodes : List Node) (id container : String) : Prop :=
  ∃ node ∈ nodes, node.id = id ∧ node.parent? = some container

/-- Following containers leads to a component that is its own ancestor. -/
def EntersLoop (nodes : List Node) (id : String) : Prop :=
  ∃ other, ReflTransGen (ContainedIn nodes) id other ∧ TransGen (ContainedIn nodes) other other

variable {nodes : List Node}

/-- Where ids differ, what a component is contained in is the container that it names. -/
theorem ContainedIn.parent?_eq (hnodup : (nodes.map Node.id).Nodup) {node : Node}
    (hnode : node ∈ nodes) {container : String} (h : ContainedIn nodes node.id container) :
    node.parent? = some container := by
  obtain ⟨other, hother, hid, hparent⟩ := h
  rwa [← List.inj_on_of_nodup_map hnodup hother hnode hid]

/-- A component has one container at most. -/
theorem containedIn_rightUnique (hnodup : (nodes.map Node.id).Nodup) :
    Relator.RightUnique (ContainedIn nodes) := by
  rintro id container other ⟨node, hnode, rfl, hparent⟩ hcontained
  exact Option.some.inj (hparent.symm.trans (hcontained.parent?_eq hnodup hnode))

/-- What is contained in something that leads into a loop leads there as well. -/
theorem EntersLoop.head {id container : String} (hcontained : ContainedIn nodes id container)
    (h : EntersLoop nodes container) : EntersLoop nodes id := by
  obtain ⟨other, hpath, hloop⟩ := h
  exact ⟨other, .head hcontained hpath, hloop⟩

/-- What leads into a loop is contained in something that does. Following containers leads one way
only, so a loop that is entered is never left. -/
theorem EntersLoop.exists_container {id : String} (h : EntersLoop nodes id) :
    ∃ container, ContainedIn nodes id container ∧ EntersLoop nodes container := by
  obtain ⟨other, hpath, hloop⟩ := h
  obtain rfl | ⟨container, hcontained, hrest⟩ := hpath.cases_head
  · obtain ⟨container, hcontained, hback⟩ := TransGen.head'_iff.mp hloop
    exact ⟨container, hcontained, id, hback, hloop⟩
  · exact ⟨container, hcontained, other, hrest, hloop⟩

theorem Tree.containedIn_iff {tree : Tree} {id container : String} :
    ContainedIn tree.nodes id container ↔ (tree.get? id).bind Node.parent? = some container := by
  simp only [ContainedIn, Option.bind_eq_some_iff, get?_eq_some_iff, and_assoc]

end Workflow
