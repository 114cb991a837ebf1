import Mathlib.Data.List.Perm.Basic
import Mathlib.Data.List.Range
import Workflow.Proofs.Validation.Search

namespace Workflow.Digraph

open Relation

variable {g : Digraph}

/-- No more is pending than the graph has edges and vertices. -/
theorem pending_le (g : Digraph) (seen : List Nat) :
    g.pending seen ≤ g.edges.length + g.size := by
  have hle := List.countP_le_length (p := (· ∉ seen))
    (l := g.edges.map Prod.fst ++ List.range g.size)
  rwa [List.length_append, List.length_map, List.length_range] at hle

/-- Searching from one more vertex is never cut short. -/
theorem explores_steps (hclosed : g.Closed) {v : Nat} (hv : v < g.size) (search : Search) :
    g.Explores [v] search (g.explore g.steps [v] search) := by
  refine explores_explore hclosed _ _ search (by simpa using hv) ?_
  have hpending := g.pending_le search.seen
  rw [List.length_singleton, steps]
  omega

/-- A tidy search goes on from a vertex of the graph. -/
theorem Search.Tidy.push {search : Search} (htidy : search.Tidy g []) {v : Nat}
    (hv : v < g.size) : search.Tidy g [v] :=
  { htidy with
    stacked := by simpa using hv
    waiting := fun u hu hunfinished =>
      absurd (htidy.waiting u hu hunfinished) List.not_mem_nil }

/-- Between two vertices of the outer search nothing waits, so the next one may go on the stack. -/
theorem Search.Traced.push {search : Search} (htidy : search.Tidy g [])
    (htraced : search.Traced g []) (v : Nat) : search.Traced g [v] :=
  { htraced with
    leads := fun _ u _ _ _ hu hunfinished =>
      absurd (htidy.waiting u hu hunfinished) List.not_mem_nil
    covered := fun _ u _ _ _ hu hunfinished =>
      absurd (htidy.waiting u hu hunfinished) List.not_mem_nil }

/-- Searching from each vertex meets them all, or stops at one that leads to itself. -/
theorem exploreAll_preserves (hclosed : g.Closed) {vs : List Nat} (hvs : ∀ v ∈ vs, v < g.size)
    {search : Search} (htidy : search.Tidy g []) (htraced : search.Traced g []) :
    (∀ after, g.exploreAll vs search = .ok after →
        after.Tidy g [] ∧ after.Traced g [] ∧ search.seen ⊆ after.seen ∧ vs ⊆ after.seen) ∧
      ∀ v, g.exploreAll vs search = .error v → v < g.size ∧ g.Adj v v := by
  induction vs generalizing search with
  | nil =>
    refine ⟨?_, nofun⟩
    rintro after ⟨⟩
    exact ⟨htidy, htraced, List.Subset.refl _, List.nil_subset _⟩
  | cons v rest ih =>
    obtain ⟨hv, hrest⟩ := List.forall_mem_cons.mp hvs
    unfold exploreAll
    by_cases hseen : v ∈ search.seen
    · simp only [if_pos hseen]
      obtain ⟨hok, herror⟩ := ih hrest htidy htraced
      refine ⟨fun after hafter => ?_, herror⟩
      obtain ⟨htidy, htraced, hkept, hmet⟩ := hok after hafter
      exact ⟨htidy, htraced, hkept, List.cons_subset.mpr ⟨hkept hseen, hmet⟩⟩
    · simp only [if_neg hseen]
      have hexplores := explores_steps hclosed hv search
      obtain ⟨hok, herror⟩ := hexplores.preserves hclosed (htidy.push hv) (htraced.push htidy v)
      cases hbetween : g.explore g.steps [v] search with
      | error u =>
        refine ⟨nofun, ?_⟩
        rintro w ⟨⟩
        exact herror u hbetween
      | ok between =>
        obtain ⟨htidy, htraced⟩ := hok between hbetween
        obtain ⟨hseen, hstack⟩ := hexplores.seen_subset between hbetween
        obtain ⟨hok, herror⟩ := ih hrest htidy htraced
        refine ⟨fun after hafter => ?_, herror⟩
        obtain ⟨htidy, htraced, hkept, hmet⟩ := hok after hafter
        exact ⟨htidy, htraced, List.Subset.trans hseen hkept,
          List.cons_subset.mpr ⟨hkept (hstack List.mem_cons_self), hmet⟩⟩

theorem Search.tidy_empty (g : Digraph) : ({} : Search).Tidy g [] where
  stacked := List.forall_mem_nil _
  met := List.forall_mem_nil _
  loopless := List.forall_mem_nil _
  waiting := List.forall_mem_nil _
  finished := List.forall_mem_nil _
  once := .nil

theorem Search.traced_empty (g : Digraph) : ({} : Search).Traced g [] where
  leads _ _ _ _ _ hu := absurd hu List.not_mem_nil
  covered _ _ _ _ _ hu := absurd hu List.not_mem_nil
  behind := List.forall_mem_nil _
  ordered := .nil

/-- What the first search finds out about the graph. -/
structure Finished (g : Digraph) (order : List Nat) : Prop where
  perm : order.Perm (List.range g.size)
  loopless : ∀ v, ¬ g.Adj v v
  ordered : order.Pairwise fun earlier later =>
    g.Adj later earlier → TransGen g.Adj earlier later

theorem Finished.mem {order : List Nat} (hfinished : g.Finished order) {v : Nat} :
    v ∈ order ↔ v < g.size := hfinished.perm.mem_iff.trans List.mem_range

theorem Finished.nodup {order : List Nat} (hfinished : g.Finished order) : order.Nodup :=
  hfinished.perm.nodup_iff.mpr List.nodup_range

/-- A search from each vertex that is not stopped has finished the graph. -/
theorem finished_of_exploreAll (hclosed : g.Closed) {after : Search}
    (hafter : g.exploreAll (List.range g.size) {} = .ok after) : g.Finished after.finished := by
  obtain ⟨htidy, htraced, _, hmet⟩ := (exploreAll_preserves hclosed (by simp)
    (Search.tidy_empty g) (Search.traced_empty g)).1 after hafter
  have hmem : ∀ v, v ∈ after.finished ↔ v < g.size := by
    intro v
    constructor
    · intro hv
      exact htidy.met v (htidy.finished v hv)
    · intro hv
      by_contra hunfinished
      exact absurd (htidy.waiting v (hmet (List.mem_range.mpr hv)) hunfinished) List.not_mem_nil
  refine ⟨?_, ?_, htraced.ordered⟩
  · rw [List.perm_ext_iff_of_nodup htidy.once List.nodup_range]
    simpa using hmem
  · intro v hloop
    have hv := (hclosed v v hloop).1
    exact htidy.loopless v (htidy.finished v ((hmem v).mpr hv)) hloop

/-- Nothing is found on the stack just if all of it was seen. -/
theorem nextBack_eq_none {stack seen : List Nat} :
    g.nextBack stack seen = none ↔ ∀ v ∈ stack, v ∈ seen := by
  induction stack with
  | nil => simp [nextBack]
  | cons v rest ih => by_cases hseen : v ∈ seen <;> simp [nextBack, hseen, ih]

theorem nextBack_mem {stack seen after later : List Nat} {u : Nat}
    (h : g.nextBack stack seen = some (u, after, later)) : u ∈ stack := by
  induction stack with
  | nil => cases h
  | cons v rest ih =>
    by_cases hseen : v ∈ seen
    · simp only [nextBack, if_pos hseen] at h
      exact List.mem_cons_of_mem v (ih h)
    · simp only [nextBack, if_neg hseen, Option.some.injEq, Prod.mk.injEq] at h
      obtain ⟨rfl, _⟩ := h
      exact List.mem_cons_self

/-- The unseen vertices that a search against the edges from `v` goes on with. -/
def sources (g : Digraph) (v : Nat) (seen : List Nat) : List Nat :=
  pushUnseen (v :: seen) [] (g.predecessors v)

theorem mem_sources {u v : Nat} {seen : List Nat} :
    u ∈ g.sources v seen ↔ g.Adj u v ∧ u ∉ v :: seen := by
  simp [sources]

/-- A vertex to which no unseen one leads is passed over. -/
theorem backEdge?_cons_of_none {v : Nat} {rest seen : List Nat} (hunseen : v ∉ seen)
    (hback : g.nextBack (g.sources v seen) (v :: seen) = none) :
    g.backEdge? (v :: rest) seen = g.backEdge? rest (v :: seen) := by
  rw [sources] at hback
  simp [backEdge?, nextBack, hunseen, hback]

/-- An unseen vertex that leads to the one at hand shows that there is no order. -/
theorem backEdge?_cons_of_some {u v : Nat} {rest seen after later : List Nat} (hunseen : v ∉ seen)
    (hback : g.nextBack (g.sources v seen) (v :: seen) = some (u, after, later)) :
    g.backEdge? (v :: rest) seen = some u := by
  rw [sources] at hback
  simp [backEdge?, nextBack, hunseen, hback]

/-- Vertices that stand behind the one at hand are still unseen after it. -/
private theorem unseen_rest {v : Nat} {rest seen : List Nat} (hnodup : (v :: rest).Nodup)
    (hunseen : ∀ u ∈ v :: rest, u ∉ seen) : ∀ u ∈ rest, u ∉ v :: seen := by
  intro u hu
  have hne : u ≠ v := fun h => (List.nodup_cons.mp hnodup).1 (h ▸ hu)
  exact List.not_mem_cons_of_ne_of_not_mem hne (hunseen u (List.mem_cons_of_mem v hu))

/-- No vertex leads to an earlier one if none of them is found. -/
theorem pairwise_of_backEdge?_eq_none {order seen : List Nat} (hnodup : order.Nodup)
    (hunseen : ∀ v ∈ order, v ∉ seen) (hnone : g.backEdge? order seen = none) :
    order.Pairwise fun earlier later => ¬ g.Adj later earlier := by
  induction order generalizing seen with
  | nil => exact .nil
  | cons v rest ih =>
    have hfresh := unseen_rest hnodup hunseen
    have hunseen_v := hunseen v List.mem_cons_self
    cases hback : g.nextBack (g.sources v seen) (v :: seen) with
    | some found =>
      rw [backEdge?_cons_of_some hunseen_v hback] at hnone
      cases hnone
    | none =>
      rw [backEdge?_cons_of_none hunseen_v hback] at hnone
      refine List.pairwise_cons.mpr ⟨?_, ih hnodup.of_cons hfresh hnone⟩
      intro u hu hadj
      have hsource := mem_sources.mpr ⟨hadj, hfresh u hu⟩
      exact hfresh u hu (nextBack_eq_none.mp hback u hsource)

/-- A vertex that is found leads to an earlier one. -/
theorem exists_adj_of_backEdge?_eq_some {order seen : List Nat} {u : Nat}
    (hunseen : ∀ v ∈ order, v ∉ seen) (hnodup : order.Nodup)
    (hcovered : ∀ v ∈ order, ∀ w, g.Adj w v → w ∈ seen ∨ w ∈ order)
    (hsome : g.backEdge? order seen = some u) : ∃ v, [v, u].Sublist order ∧ g.Adj u v := by
  induction order generalizing seen with
  | nil => cases hsome
  | cons v rest ih =>
    have hunseen_v := hunseen v List.mem_cons_self
    cases hback : g.nextBack (g.sources v seen) (v :: seen) with
    | some found =>
      obtain ⟨w, after, later⟩ := found
      rw [backEdge?_cons_of_some hunseen_v hback] at hsome
      obtain rfl := Option.some.inj hsome
      obtain ⟨hadj, hw⟩ := mem_sources.mp (nextBack_mem hback)
      rw [List.mem_cons, not_or] at hw
      have hlisted := (hcovered v List.mem_cons_self w hadj).resolve_left hw.2
      have hrest := (List.mem_cons.mp hlisted).resolve_left hw.1
      exact ⟨v, (List.singleton_sublist.mpr hrest).cons_cons v, hadj⟩
    | none =>
      rw [backEdge?_cons_of_none hunseen_v hback] at hsome
      have hcovered_rest : ∀ u ∈ rest, ∀ w, g.Adj w u → w ∈ v :: seen ∨ w ∈ rest := by
        intro u hu w hadj
        have hw := hcovered u (List.mem_cons_of_mem v hu) w hadj
        rw [List.mem_cons] at hw ⊢
        tauto
      obtain ⟨earlier, hbefore, hadj⟩ := ih (unseen_rest hnodup hunseen) hnodup.of_cons hcovered_rest hsome
      exact ⟨earlier, hbefore.cons v, hadj⟩

/-- Where no later element is related to an earlier one, related elements stand in order. -/
theorem idxOf_lt_idxOf_of_pairwise {α : Type} [DecidableEq α] {edge : α → α → Prop} {l : List α}
    (hpairwise : l.Pairwise fun earlier later => ¬ edge later earlier) {a b : α} (ha : a ∈ l)
    (hb : b ∈ l) (hne : a ≠ b) (hedge : edge a b) : l.idxOf a < l.idxOf b := by
  by_contra hle
  have hidx : l.idxOf b ≠ l.idxOf a := fun h => hne (List.idxOf_inj ha |>.mp h.symm)
  have hlt : l.idxOf b < l.idxOf a := by omega
  have hback := List.pairwise_iff_getElem.mp hpairwise _ _ (List.idxOf_lt_length_of_mem hb)
    (List.idxOf_lt_length_of_mem ha) hlt
  rw [List.getElem_idxOf, List.getElem_idxOf] at hback
  exact hback hedge

/-- The first search stops, or the second one decides. -/
theorem order_cases (g : Digraph) :
    (∃ v, g.exploreAll (List.range g.size) {} = .error v ∧ g.order = .error v) ∨
      ∃ search, g.exploreAll (List.range g.size) {} = .ok search ∧
        ((∃ v, g.backEdge? search.finished [] = some v ∧ g.order = .error v) ∨
          g.backEdge? search.finished [] = none ∧ g.order = .ok search.finished) := by
  cases hsearch : g.exploreAll (List.range g.size) {} with
  | error v => exact .inl ⟨v, rfl, by simp [order, hsearch, bind, Except.bind]⟩
  | ok search =>
    refine .inr ⟨search, rfl, ?_⟩
    cases hback : g.backEdge? search.finished [] with
    | some v => exact .inl ⟨v, rfl, by simp [order, hsearch, hback, bind, Except.bind]⟩
    | none => exact .inr ⟨rfl, by simp [order, hsearch, hback, bind, Except.bind]⟩

/-- An order that is found lists every vertex once, and every edge leads to a later one. -/
theorem order_eq_ok (hclosed : g.Closed) {order : List Nat} (h : g.order = .ok order) :
    order.Perm (List.range g.size) ∧
      ∀ u v, g.Adj u v → order.idxOf u < order.idxOf v := by
  obtain ⟨_, _, horder⟩ | ⟨search, hsearch, ⟨_, _, horder⟩ | ⟨hback, horder⟩⟩ := g.order_cases
  · cases horder.symm.trans h
  · cases horder.symm.trans h
  · obtain rfl := Except.ok.inj (horder.symm.trans h)
    have hfinished := finished_of_exploreAll hclosed hsearch
    refine ⟨hfinished.perm, ?_⟩
    intro u v hadj
    have hpairwise := pairwise_of_backEdge?_eq_none
      hfinished.nodup (fun _ _ => List.not_mem_nil) hback
    obtain ⟨hu, hv⟩ := hclosed u v hadj
    refine idxOf_lt_idxOf_of_pairwise hpairwise (hfinished.mem.mpr hu) (hfinished.mem.mpr hv) ?_ hadj
    rintro rfl
    exact hfinished.loopless u hadj

/-- A vertex that shows that there is no order is on a cycle. -/
theorem order_eq_error (hclosed : g.Closed) {v : Nat} (h : g.order = .error v) :
    v < g.size ∧ TransGen g.Adj v v := by
  obtain ⟨u, hsearch, horder⟩ | ⟨search, hsearch, ⟨u, hback, horder⟩ | ⟨_, horder⟩⟩ :=
    g.order_cases
  · obtain rfl := Except.error.inj (horder.symm.trans h)
    obtain ⟨hu, hloop⟩ := (exploreAll_preserves hclosed (by simp) (Search.tidy_empty g)
      (Search.traced_empty g)).2 u hsearch
    exact ⟨hu, .single hloop⟩
  · obtain rfl := Except.error.inj (horder.symm.trans h)
    have hfinished := finished_of_exploreAll hclosed hsearch
    obtain ⟨earlier, hbefore, hadj⟩ := exists_adj_of_backEdge?_eq_some
      (fun _ _ => List.not_mem_nil) hfinished.nodup
      (fun _ _ w hadj => .inr (hfinished.mem.mpr (hclosed w _ hadj).1)) hback
    have hcycle := List.pairwise_iff_forall_sublist.mp hfinished.ordered hbefore hadj
    exact ⟨(hclosed u earlier hadj).1, .head hadj hcycle⟩
  · cases horder.symm.trans h

end Workflow.Digraph
