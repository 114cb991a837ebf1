import Mathlib.Order.WellFoundedSet
import Workflow.Run.Dependency

namespace Workflow

open Relation

/-- An edge leads from one component of a run to another. -/
def Feeds (nodes : List Node) (producer target : Node) : Prop :=
  producer ∈ nodes ∧ target ∈ nodes ∧ ∃ out ∈ producer.outs, out.target = target.id

/-- The edges among the components have no cycle. An edge from a component to itself is one. -/
def Acyclic (nodes : List Node) : Prop := ∀ node, ¬ TransGen (Feeds nodes) node node

/-- Equal ids mean equal components. -/
def Identified (nodes : List Node) : Prop :=
  ∀ node ∈ nodes, ∀ other ∈ nodes, node.id = other.id → node = other

/-- Components whose ids differ are told apart by them. -/
theorem identified_of_nodup {nodes : List Node} (hnodup : (nodes.map Node.id).Nodup) :
    Identified nodes := by
  intro node hnode other hother heq
  exact List.inj_on_of_nodup_map hnodup hnode hother heq

variable {nodes : List Node}

/-- A dependency is an edge to a component that has a container. -/
theorem mem_dependencies_iff {target producer : Node} {label : String} :
    (producer, label) ∈ dependencies target nodes ↔
      target.parent?.isSome = true ∧ producer ∈ nodes ∧ ⟨label, target.id⟩ ∈ producer.outs := by
  unfold dependencies
  cases hparent : target.parent? with
  | none => simp
  | some parent =>
    simp only [Option.isNone_some, Bool.false_eq_true, if_false, List.mem_flatMap, List.mem_map,
      List.mem_filter, Prod.mk.injEq, Option.isSome_some, true_and]
    constructor
    · rintro ⟨found, hfound, out, ⟨hout, htarget⟩, rfl, rfl⟩
      obtain ⟨label, target⟩ := out
      obtain rfl := eq_of_beq htarget
      exact ⟨hfound, hout⟩
    · rintro ⟨hproducer, hout⟩
      exact ⟨producer, hproducer, _, ⟨hout, by simp⟩, rfl, rfl⟩

theorem mem_of_mem_dependencies {target : Node} {dependency : Node × String}
    (hmem : dependency ∈ dependencies target nodes) : dependency.1 ∈ nodes :=
  (mem_dependencies_iff.mp hmem).2.1

theorem feeds_of_mem_dependencies {target producer : Node} {label : String}
    (htarget : target ∈ nodes) (hmem : (producer, label) ∈ dependencies target nodes) :
    Feeds nodes producer target := by
  obtain ⟨_, hproducer, hout⟩ := mem_dependencies_iff.mp hmem
  exact ⟨hproducer, htarget, _, hout, rfl⟩

/-- A component that has a container depends on every component with an edge to it. -/
theorem Feeds.mem_dependencies {target producer : Node} (h : Feeds nodes producer target)
    (hparent : target.parent?.isSome = true) :
    ∃ label, (producer, label) ∈ dependencies target nodes := by
  obtain ⟨hproducer, _, ⟨label, id⟩, hout, rfl⟩ := h
  exact ⟨label, mem_dependencies_iff.mpr ⟨hparent, hproducer, hout⟩⟩

/-- What leads to a component of the run along edges is in the run. -/
theorem mem_of_leads {node target : Node} (htarget : target ∈ nodes)
    (h : ReflTransGen (Feeds nodes) node target) : node ∈ nodes := by
  obtain rfl | ⟨_, hfeeds, _⟩ := h.cases_head
  · exact htarget
  · exact hfeeds.1

theorem mem_of_mem_terminals {node : Node} (h : node ∈ terminals nodes) : node ∈ nodes :=
  (List.mem_filter.mp h).1

/-- Edges that only lead upwards have no cycle. -/
theorem acyclic_of_rank (rank : Node → Nat)
    (hrank : ∀ producer target, Feeds nodes producer target → rank producer < rank target) :
    Acyclic nodes := by
  have hpath : ∀ producer target, TransGen (Feeds nodes) producer target →
      rank producer < rank target := by
    intro producer target hpath
    induction hpath with
    | single hfeeds => exact hrank _ _ hfeeds
    | tail _ hfeeds ih => exact ih.trans (hrank _ _ hfeeds)
  intro node hcycle
  exact (hpath node node hcycle).false

private theorem wellFounded_of_irreflexive {edge : Node → Node → Prop}
    (hmem : ∀ node other, edge node other → node ∈ nodes ∧ other ∈ nodes)
    (hirrefl : ∀ node, ¬ TransGen edge node node) : WellFounded edge := by
  have : IsStrictOrder Node (TransGen edge) :=
    { irrefl := hirrefl, trans := fun _ _ _ => TransGen.trans }
  have hon : ({node | node ∈ nodes} : Set Node).WellFoundedOn (TransGen edge) :=
    nodes.finite_toSet.wellFoundedOn
  rw [Set.wellFoundedOn_iff] at hon
  refine Subrelation.wf ?_ hon
  intro node other hedge
  exact ⟨.single hedge, hmem node other hedge⟩

/-- Where edges have no cycle, induction along them is possible. -/
theorem Acyclic.wellFounded (hacyclic : Acyclic nodes) : WellFounded (Feeds nodes) :=
  wellFounded_of_irreflexive (fun _ _ h => ⟨h.1, h.2.1⟩) hacyclic

/-- Where edges have no cycle, induction against them is possible. -/
theorem Acyclic.wellFounded_swap (hacyclic : Acyclic nodes) :
    WellFounded (Function.swap (Feeds nodes)) := by
  refine wellFounded_of_irreflexive (fun _ _ h => ⟨h.2.1, h.1⟩) ?_
  intro node hcycle
  exact hacyclic node (transGen_swap.mp hcycle)

/-- Following edges from a component comes to a terminal one. -/
theorem Acyclic.exists_terminal (hacyclic : Acyclic nodes) {node : Node} (hnode : node ∈ nodes) :
    ∃ terminal ∈ terminals nodes, ReflTransGen (Feeds nodes) node terminal := by
  induction node using hacyclic.wellFounded_swap.induction with
  | _ node ih =>
    cases hleads : node.outs.any fun out => nodes.any (·.id == out.target) with
    | false =>
      refine ⟨node, ?_, .refl⟩
      rw [terminals, List.mem_filter, hleads]
      exact ⟨hnode, rfl⟩
    | true =>
      obtain ⟨out, hout, hany⟩ := List.any_eq_true.mp hleads
      obtain ⟨next, hnext, hid⟩ := List.any_eq_true.mp hany
      have hfeeds : Feeds nodes node next := ⟨hnode, hnext, out, hout, (eq_of_beq hid).symm⟩
      obtain ⟨terminal, hterminal, hpath⟩ := ih next hfeeds hnext
      exact ⟨terminal, hterminal, .head hfeeds hpath⟩

end Workflow
