import Mathlib.Data.List.Nodup
import Mathlib.Logic.Relation
import Workflow.Validation.Order

namespace Workflow.Digraph

open Relation

/-- An edge leads from one vertex to the other. -/
def Adj (g : Digraph) (u v : Nat) : Prop := (u, v) ∈ g.edges

/-- Every edge joins vertices of the graph. -/
def Closed (g : Digraph) : Prop := ∀ u v, g.Adj u v → u < g.size ∧ v < g.size

variable {g : Digraph}

@[simp] theorem mem_successors {u v : Nat} : v ∈ g.successors u ↔ g.Adj u v := by
  simp [successors, Adj]

@[simp] theorem mem_predecessors {u v : Nat} : u ∈ g.predecessors v ↔ g.Adj u v := by
  simp [predecessors, Adj]

/-- A vertex has a successor for every edge that starts at it. -/
theorem length_successors (g : Digraph) (v : Nat) :
    (g.successors v).length = (g.edges.map Prod.fst).count v := by
  rw [successors, List.length_reverse, List.length_map, List.count, List.countP_map,
    List.countP_eq_length_filter]
  rfl

/-- The unseen vertices are pushed one by one, so the last of them is on top. -/
theorem pushUnseen_eq (seen stack vs : List Nat) :
    pushUnseen seen stack vs = (vs.filter (· ∉ seen)).reverse ++ stack := by
  induction vs generalizing stack with
  | nil => rfl
  | cons v rest ih => by_cases hseen : v ∈ seen <;> simp [pushUnseen, ih, hseen]

@[simp] theorem mem_pushUnseen {seen stack vs : List Nat} {u : Nat} :
    u ∈ pushUnseen seen stack vs ↔ u ∈ vs ∧ u ∉ seen ∨ u ∈ stack := by
  simp [pushUnseen_eq]

namespace Search

/-- The search after a vertex is met. -/
def enter (search : Search) (v : Nat) : Search := { search with seen := v :: search.seen }

/-- The search after a vertex is taken off the stack. -/
def leave (search : Search) (v : Nat) : Search :=
  { search with
    finished := if v ∈ search.finished then search.finished else v :: search.finished }

variable {search : Search}

@[simp] theorem seen_enter (v : Nat) : (search.enter v).seen = v :: search.seen := rfl
@[simp] theorem seen_leave (v : Nat) : (search.leave v).seen = search.seen := rfl

theorem finished_leave_of_mem {v : Nat} (hfinished : v ∈ search.finished) :
    (search.leave v).finished = search.finished := if_pos hfinished

theorem finished_leave_of_notMem {v : Nat} (hunfinished : v ∉ search.finished) :
    (search.leave v).finished = v :: search.finished := if_neg hunfinished

@[simp] theorem mem_finished_leave {u v : Nat} :
    u ∈ (search.leave v).finished ↔ u = v ∨ u ∈ search.finished := by
  by_cases hfinished : v ∈ search.finished
  · simp only [finished_leave_of_mem hfinished, iff_or_self]
    rintro rfl
    exact hfinished
  · simp [finished_leave_of_notMem hfinished]

end Search

/-- A search from the vertices on the stack ends as told. -/
inductive Explores (g : Digraph) : List Nat → Search → Except Nat Search → Prop
  /-- Nothing is left to search from. -/
  | done {search} : Explores g [] search (.ok search)
  /-- What a vertex leads to has been searched, now or before. -/
  | leave {v stack search ending} : v ∈ search.seen →
      Explores g stack (search.leave v) ending → Explores g (v :: stack) search ending
  /-- A vertex leads to itself. -/
  | loop {v stack search} : v ∉ search.seen → g.Adj v v →
      Explores g (v :: stack) search (.error v)
  /-- A vertex is met, and what it leads to is put above it. -/
  | enter {v stack search ending} : v ∉ search.seen → ¬ g.Adj v v →
      Explores g (pushUnseen (search.enter v).seen (v :: stack) (g.successors v)) (search.enter v)
        ending →
      Explores g (v :: stack) search ending

/-- How often the edges and the vertices of the graph start at a vertex that is not met yet. -/
def pending (g : Digraph) (seen : List Nat) : Nat :=
  (g.edges.map Prod.fst ++ List.range g.size).countP (· ∉ seen)

/-- What starts at an unseen vertex starts at `v` or at one that is unseen after `v`. -/
private theorem countP_unseen {v : Nat} {seen : List Nat} (hunseen : v ∉ seen) (vs : List Nat) :
    vs.countP (· ∉ seen) = vs.count v + vs.countP (· ∉ v :: seen) := by
  induction vs with
  | nil => rfl
  | cons u rest ih =>
    obtain rfl | hne := eq_or_ne u v
    · simp only [List.countP_cons, List.count_cons, ih, hunseen]
      simp
      omega
    · have hiff : decide (u ∉ v :: seen) = decide (u ∉ seen) := by simp [hne]
      simp only [List.countP_cons, List.count_cons_of_ne hne, ih, hiff]
      omega

/-- Meeting a vertex settles it and its edges. -/
theorem pending_enter {v : Nat} {seen : List Nat} (hunseen : v ∉ seen) (hv : v < g.size) :
    (g.successors v).length + 1 + g.pending (v :: seen) = g.pending seen := by
  have hrange : (List.range g.size).count v = 1 :=
    List.count_eq_one_of_mem List.nodup_range (List.mem_range.mpr hv)
  rw [pending, pending, countP_unseen hunseen, List.count_append, length_successors, hrange]

theorem length_pushUnseen_le (seen stack vs : List Nat) :
    (pushUnseen seen stack vs).length ≤ vs.length + stack.length := by
  have hfilter := List.length_filter_le (fun v => decide (v ∉ seen)) vs
  rw [pushUnseen_eq, List.length_append, List.length_reverse]
  omega

/-- A search is not cut short if the allowed steps exceed what is on the stack and pending. -/
theorem explores_explore (hclosed : g.Closed) (more : Nat) : ∀ (stack : List Nat)
    (search : Search), (∀ v ∈ stack, v < g.size) →
      stack.length + g.pending search.seen < more →
        g.Explores stack search (g.explore more stack search) := by
  induction more with
  | zero =>
    intro stack search _ hmore
    omega
  | succ more ih =>
    intro stack search hstack hmore
    cases stack with
    | nil => exact .done
    | cons v stack =>
      obtain ⟨hv, hrest⟩ := List.forall_mem_cons.mp hstack
      rw [List.length_cons] at hmore
      unfold explore
      by_cases hseen : v ∈ search.seen
      · simp only [if_pos hseen]
        refine .leave hseen (ih stack _ hrest ?_)
        rw [Search.seen_leave]
        omega
      · simp only [if_neg hseen]
        by_cases hloop : v ∈ g.successors v
        · simp only [if_pos hloop]
          exact .loop hseen (mem_successors.mp hloop)
        · simp only [if_neg hloop]
          refine .enter hseen (mt mem_successors.mpr hloop) (ih _ _ ?_ ?_)
          · intro u hu
            rw [mem_pushUnseen, mem_successors, List.mem_cons] at hu
            obtain ⟨hadj, _⟩ | rfl | hu := hu
            · exact (hclosed v u hadj).2
            · exact hv
            · exact hrest u hu
          · have hpushed := length_pushUnseen_le (v :: search.seen) (v :: stack) (g.successors v)
            have hpending := pending_enter hseen hv
            rw [List.length_cons] at hpushed
            rw [Search.seen_enter]
            omega

/-- What was met stays met, and what is on the stack is met before the search ends. -/
theorem Explores.seen_subset {stack : List Nat} {search : Search} {ending : Except Nat Search}
    (h : g.Explores stack search ending) :
    ∀ after, ending = .ok after → search.seen ⊆ after.seen ∧ stack ⊆ after.seen := by
  induction h with
  | done =>
    rintro after ⟨⟩
    exact ⟨List.Subset.refl _, List.nil_subset _⟩
  | leave hseen _ ih =>
    intro after hafter
    obtain ⟨hkept, hstack⟩ := ih after hafter
    exact ⟨hkept, List.cons_subset.mpr ⟨hkept hseen, hstack⟩⟩
  | loop _ _ => rintro after ⟨⟩
  | enter hunseen _ _ ih =>
    intro after hafter
    obtain ⟨hkept, hstack⟩ := ih after hafter
    exact ⟨fun u hu => hkept (List.mem_cons_of_mem _ hu),
      fun u hu => hstack (mem_pushUnseen.mpr (.inr hu))⟩

namespace Search

/-- The vertices that a search has met are on the stack or finished, each finished once. -/
structure Tidy (g : Digraph) (stack : List Nat) (search : Search) : Prop where
  stacked : ∀ v ∈ stack, v < g.size
  met : ∀ v ∈ search.seen, v < g.size
  loopless : ∀ v ∈ search.seen, ¬ g.Adj v v
  waiting : ∀ v ∈ search.seen, v ∉ search.finished → v ∈ stack
  finished : ∀ v ∈ search.finished, v ∈ search.seen
  once : search.finished.Nodup

variable {search : Search} {v : Nat} {stack : List Nat}

/-- A search stays tidy when a vertex that was met is taken off. -/
theorem Tidy.leave (htidy : search.Tidy g (v :: stack)) (hseen : v ∈ search.seen) :
    (search.leave v).Tidy g stack where
  stacked u hu := htidy.stacked u (List.mem_cons_of_mem v hu)
  met := htidy.met
  loopless := htidy.loopless
  waiting u hu hunfinished := by
    rw [mem_finished_leave, not_or] at hunfinished
    exact (List.mem_cons.mp (htidy.waiting u hu hunfinished.2)).resolve_left hunfinished.1
  finished u hu := by
    obtain rfl | hu := mem_finished_leave.mp hu
    · exact hseen
    · exact htidy.finished u hu
  once := by
    by_cases hfinished : v ∈ search.finished
    · rw [finished_leave_of_mem hfinished]
      exact htidy.once
    · rw [finished_leave_of_notMem hfinished]
      exact List.nodup_cons.mpr ⟨hfinished, htidy.once⟩

/-- A search stays tidy when a vertex without an edge to itself is met and its successors are
pushed. -/
theorem Tidy.enter (htidy : search.Tidy g (v :: stack)) (hclosed : g.Closed)
    (hloop : ¬ g.Adj v v) :
    (search.enter v).Tidy g
      (pushUnseen (search.enter v).seen (v :: stack) (g.successors v)) where
  stacked u hu := by
    obtain ⟨hadj, _⟩ | hu := mem_pushUnseen.mp hu
    · exact (hclosed v u (mem_successors.mp hadj)).2
    · exact htidy.stacked u hu
  met u hu := by
    obtain rfl | hu := List.mem_cons.mp hu
    · exact htidy.stacked u List.mem_cons_self
    · exact htidy.met u hu
  loopless u hu := by
    obtain rfl | hu := List.mem_cons.mp hu
    · exact hloop
    · exact htidy.loopless u hu
  waiting u hu hunfinished := by
    refine mem_pushUnseen.mpr (.inr ?_)
    obtain rfl | hu := List.mem_cons.mp hu
    · exact List.mem_cons_self
    · exact htidy.waiting u hu hunfinished
  finished u hu := List.mem_cons_of_mem v (htidy.finished u hu)
  once := htidy.once

/-- Vertices are met along the edges. A vertex that waits leads to everything above its topmost
place on the stack. Its successors are finished, or above it, or they lead back to it, and when it
is finished itself, one of the last two is not possible any more. -/
structure Traced (g : Digraph) (stack : List Nat) (search : Search) : Prop where
  leads : ∀ above u below, stack = above ++ u :: below → u ∉ above → u ∈ search.seen →
    u ∉ search.finished → ∀ w ∈ above, TransGen g.Adj u w
  covered : ∀ above u below, stack = above ++ u :: below → u ∉ above → u ∈ search.seen →
    u ∉ search.finished → ∀ w, g.Adj u w →
      w ∈ search.finished ∨ w ∈ above ∨ TransGen g.Adj w u
  behind : ∀ u ∈ search.finished, ∀ w, g.Adj u w → w ∈ search.finished ∨ TransGen g.Adj w u
  ordered : search.finished.Pairwise fun earlier later =>
    g.Adj later earlier → TransGen g.Adj earlier later

/-- A vertex that is taken off leaves behind only successors that have finished or that lead back to
it. -/
theorem Traced.leave (htraced : search.Traced g (v :: stack)) (hseen : v ∈ search.seen) :
    (search.leave v).Traced g stack where
  leads above u below hstack habove hu hunfinished := by
    rw [mem_finished_leave, not_or] at hunfinished
    intro w hw
    exact htraced.leads (v :: above) u below (by rw [hstack]; rfl)
      (List.not_mem_cons_of_ne_of_not_mem hunfinished.1 habove) hu hunfinished.2 w
      (List.mem_cons_of_mem v hw)
  covered above u below hstack habove hu hunfinished w hadj := by
    rw [mem_finished_leave, not_or] at hunfinished
    have hcovered := htraced.covered (v :: above) u below (by rw [hstack]; rfl)
      (List.not_mem_cons_of_ne_of_not_mem hunfinished.1 habove) hu hunfinished.2 w hadj
    rw [List.mem_cons] at hcovered
    rw [mem_finished_leave]
    tauto
  behind u hu w hadj := by
    by_cases hfinished : u ∈ search.finished
    · have hbehind := htraced.behind u hfinished w hadj
      rw [mem_finished_leave]
      tauto
    · obtain rfl : u = v := (mem_finished_leave.mp hu).resolve_right hfinished
      -- Nothing is above the vertex that is taken off, so nothing remains to be searched from it.
      have hcovered := htraced.covered [] u stack rfl List.not_mem_nil hseen hfinished w hadj
      rw [mem_finished_leave]
      simpa [or_assoc] using Or.inr hcovered
  ordered := by
    by_cases hfinished : v ∈ search.finished
    · rw [finished_leave_of_mem hfinished]
      exact htraced.ordered
    · rw [finished_leave_of_notMem hfinished]
      refine List.pairwise_cons.mpr ⟨?_, htraced.ordered⟩
      intro u hu hadj
      exact (htraced.behind u hu v hadj).resolve_left hfinished

/-- A vertex that waits leads to the one on top of the stack. -/
theorem Traced.leads_top (htraced : search.Traced g (v :: stack))
    (htidy : search.Tidy g (v :: stack)) {u : Nat} (hu : u ∈ search.seen)
    (hunfinished : u ∉ search.finished) (hne : u ≠ v) : TransGen g.Adj u v := by
  obtain ⟨above, below, hsplit, habove⟩ :=
    List.eq_append_cons_of_mem (htidy.waiting u hu hunfinished)
  cases above with
  | nil => exact absurd (List.cons.inj hsplit).1.symm hne
  | cons w above =>
    obtain ⟨rfl, _⟩ := List.cons.inj hsplit
    exact htraced.leads (v :: above) u below hsplit habove hu hunfinished v List.mem_cons_self

/-- The topmost place of a vertex that is not pushed stays where it is. -/
private theorem split_of_append {pushed stack above below : List Nat} {u : Nat}
    (hu : u ∉ pushed) (hsplit : pushed ++ stack = above ++ u :: below) :
    ∃ rest, above = pushed ++ rest ∧ stack = rest ++ u :: below := by
  obtain ⟨rest, habove, hstack⟩ | ⟨rest, hpushed, hbelow⟩ := List.append_eq_append_iff.mp hsplit
  · exact ⟨rest, habove, hstack⟩
  · cases rest with
    | nil => exact ⟨[], by simpa using hpushed.symm, hbelow.symm⟩
    | cons w rest =>
      obtain ⟨rfl, _⟩ := List.cons.inj hbelow
      rw [hpushed] at hu
      exact absurd (by simp) hu

/-- The topmost place of another vertex stays where it is, below what is pushed. -/
private theorem split_of_ne {pushed above below : List Nat} {u : Nat} (hu : u ∉ pushed)
    (hne : u ≠ v) (hsplit : pushed ++ v :: stack = above ++ u :: below) :
    ∃ rest, above = pushed ++ v :: rest ∧ v :: stack = (v :: rest) ++ u :: below := by
  obtain ⟨rest, rfl, hstack⟩ := split_of_append hu hsplit
  cases rest with
  | nil => exact absurd (List.cons.inj hstack).1.symm hne
  | cons w rest =>
    obtain ⟨rfl, _⟩ := List.cons.inj hstack
    exact ⟨rest, rfl, hstack⟩

/-- The vertex at hand is right below what is pushed. -/
private theorem split_self {pushed above below : List Nat} (hv : v ∉ pushed) (habove : v ∉ above)
    (hsplit : pushed ++ v :: stack = above ++ v :: below) : above = pushed := by
  obtain ⟨rest, rfl, hstack⟩ := split_of_append hv hsplit
  cases rest with
  | nil => exact List.append_nil pushed
  | cons w rest =>
    obtain ⟨rfl, _⟩ := List.cons.inj hstack
    exact absurd (List.mem_append_right pushed List.mem_cons_self) habove

/-- A vertex that is met leads to everything that is pushed above it, and so do those that lead to
it. -/
theorem Traced.enter (htraced : search.Traced g (v :: stack)) (htidy : search.Tidy g (v :: stack))
    (hunseen : v ∉ search.seen) (hloop : ¬ g.Adj v v) :
    (search.enter v).Traced g
      (pushUnseen (search.enter v).seen (v :: stack) (g.successors v)) := by
  rw [pushUnseen_eq]
  obtain ⟨pushed, hpushed⟩ : ∃ pushed : List Nat,
      ((g.successors v).filter (· ∉ (search.enter v).seen)).reverse = pushed := ⟨_, rfl⟩
  have hmem : ∀ w, w ∈ pushed ↔ g.Adj v w ∧ w ∉ (search.enter v).seen := by simp [← hpushed]
  have hseen_notMem : ∀ w ∈ (search.enter v).seen, w ∉ pushed := fun w hw h =>
    ((hmem w).mp h).2 hw
  rw [hpushed]
  -- A vertex on the new stack is the one that is met now, or it was waiting before.
  refine ⟨?_, ?_, htraced.behind, htraced.ordered⟩
  · intro above u below hsplit habove hu hunfinished w hw
    obtain rfl | hne := eq_or_ne u v
    · rw [split_self (hseen_notMem u hu) habove hsplit] at hw
      exact .single ((hmem w).mp hw).1
    · obtain ⟨rest, rfl, hstack⟩ := split_of_ne (hseen_notMem u hu) hne hsplit
      have hleads := htraced.leads (v :: rest) u below hstack
        (fun h => habove (List.mem_append_right _ h)) ((List.mem_cons.mp hu).resolve_left hne)
        hunfinished
      obtain hw | hw := List.mem_append.mp hw
      · exact (hleads v List.mem_cons_self).tail ((hmem w).mp hw).1
      · exact hleads w hw
  · intro above u below hsplit habove hu hunfinished w hadj
    obtain rfl | hne := eq_or_ne u v
    · rw [split_self (hseen_notMem u hu) habove hsplit]
      have hw : w ≠ u := fun h => hloop (h ▸ hadj)
      by_cases hseen : w ∈ search.seen
      · by_cases hfinished : w ∈ search.finished
        · exact .inl hfinished
        · exact .inr (.inr (htraced.leads_top htidy hseen hfinished hw))
      · exact .inr (.inl ((hmem w).mpr ⟨hadj, by simp [hw, hseen]⟩))
    · obtain ⟨rest, rfl, hstack⟩ := split_of_ne (hseen_notMem u hu) hne hsplit
      have hcovered := htraced.covered (v :: rest) u below hstack
        (fun h => habove (List.mem_append_right _ h)) ((List.mem_cons.mp hu).resolve_left hne)
        hunfinished w hadj
      rw [List.mem_append]
      tauto

end Search

/-- A search that ends leaves a tidy state behind, and one that stops has found a vertex that leads
to itself. -/
theorem Explores.preserves {stack : List Nat} {search : Search} {ending : Except Nat Search}
    (h : g.Explores stack search ending) (hclosed : g.Closed) (htidy : search.Tidy g stack)
    (htraced : search.Traced g stack) :
    (∀ after, ending = .ok after → after.Tidy g [] ∧ after.Traced g []) ∧
      ∀ v, ending = .error v → v < g.size ∧ g.Adj v v := by
  induction h with
  | done =>
    refine ⟨?_, nofun⟩
    rintro after ⟨⟩
    exact ⟨htidy, htraced⟩
  | leave hseen _ ih => exact ih (htidy.leave hseen) (htraced.leave hseen)
  | loop _ hloop =>
    refine ⟨nofun, ?_⟩
    rintro v ⟨⟩
    exact ⟨htidy.stacked _ List.mem_cons_self, hloop⟩
  | enter hunseen hloop _ ih =>
    exact ih (htidy.enter hclosed hloop) (htraced.enter htidy hunseen hloop)

end Workflow.Digraph
