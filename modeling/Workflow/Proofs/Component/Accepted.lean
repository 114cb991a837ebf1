import Workflow.Proofs.Component.Containers
import Workflow.Proofs.Component.Document

namespace Workflow.Tree

open Relation

variable {tree : Tree} {nodes : List Node}

/-- A walk along the containers from `parent?` on, past the ids in `seen`. It tells whether one of
them came back. -/
inductive Walks (tree : Tree) : (seen : List String) → (parent? : Option String) → Bool → Prop
  /-- There is no further container. -/
  | ends {seen} : Walks tree seen none false
  /-- The container was passed before. -/
  | returns {seen id} : id ∈ seen → Walks tree seen (some id) true
  /-- The container is passed now. -/
  | passes {seen id back} : id ∉ seen →
      Walks tree (id :: seen) ((tree.get? id).bind Node.parent?) back →
      Walks tree seen (some id) back

/-- A walk is not cut short if it may be longer than there are components that it has not passed. -/
theorem walks_revisits (more : Nat) : ∀ (seen : List String) (parent? : Option String),
    (tree.unseen seen).length < more →
      tree.Walks seen parent? (tree.revisits more seen parent?) := by
  induction more with
  | zero => exact fun _ _ hmore => absurd hmore (Nat.not_lt_zero _)
  | succ more ih =>
    intro seen parent? hmore
    cases parent? with
    | none => exact .ends
    | some id =>
      rw [revisits]
      split
      · next hseen => exact .returns hseen
      · next hnew =>
        refine .passes hnew ?_
        cases hget : tree.get? id with
        | none =>
          -- An id that is not in the tree ends the walk, however far it might go on.
          rw [Option.bind_none, revisits]
          exact .ends
        | some node =>
          obtain ⟨hnode, rfl⟩ := get?_eq_some_iff.mp hget
          have hfewer := length_unseen_lt (List.subset_cons_self _ seen) hnode hnew (.head _)
          exact ih _ _ (by omega)

theorem walks_loops (tree : Tree) (node : Node) :
    tree.Walks [node.id] node.parent? (tree.loops node) := by
  have hle : (tree.unseen [node.id]).length ≤ tree.nodes.length := List.length_filter_le _ _
  exact walks_revisits _ _ _ (by omega)

/-- Where a walk comes back, it has led into a loop: the container ahead is reached from all that
were passed. -/
theorem Walks.entersLoop {seen : List String} {parent? : Option String}
    (h : tree.Walks seen parent? true)
    (hseen : ∀ id ∈ seen, ∀ next, parent? = some next →
      TransGen (ContainedIn tree.nodes) id next) :
    ∃ next, parent? = some next ∧ EntersLoop tree.nodes next := by
  generalize hback : true = back at h
  induction h with
  | ends => cases hback
  | returns hmem => exact ⟨_, rfl, _, .refl, hseen _ hmem _ rfl⟩
  | @passes seen id back _ _ ih =>
    have hstep : ∀ next, (tree.get? id).bind Node.parent? = some next →
        ContainedIn tree.nodes id next := fun _ hnext => containedIn_iff.mpr hnext
    have hpassed : ∀ other ∈ id :: seen, ∀ next, (tree.get? id).bind Node.parent? = some next →
        TransGen (ContainedIn tree.nodes) other next := by
      intro other hother next hnext
      obtain rfl | hother := List.mem_cons.mp hother
      · exact .single (hstep next hnext)
      · exact (hseen other hother id rfl).tail (hstep next hnext)
    obtain ⟨next, hnext, hloop⟩ := ih hpassed hback
    exact ⟨id, rfl, hloop.head (hstep next hnext)⟩

/-- Where a walk ends, it leads into no loop. -/
theorem Walks.not_entersLoop {seen : List String} {parent? : Option String}
    (h : tree.Walks seen parent? false) :
    ∀ next, parent? = some next → ¬ EntersLoop tree.nodes next := by
  generalize hback : false = back at h
  induction h with
  | ends => exact fun _ => nofun
  | returns _ => cases hback
  | passes _ _ ih =>
    rintro next ⟨⟩ hloop
    obtain ⟨container, hcontained, hloop⟩ := hloop.exists_container
    exact ih hback container (containedIn_iff.mp hcontained) hloop

/-- A component is found to loop if following its containers leads into a loop. -/
theorem loops_iff {node : Node} (hnode : node ∈ tree.nodes) :
    tree.loops node = true ↔ EntersLoop tree.nodes node.id := by
  have hwalks := tree.walks_loops node
  constructor
  · intro hback
    rw [hback] at hwalks
    have hpassed : ∀ id ∈ [node.id], ∀ next, node.parent? = some next →
        TransGen (ContainedIn tree.nodes) id next := by
      intro id hid next hnext
      exact .single ⟨node, hnode, (List.mem_singleton.mp hid).symm, hnext⟩
    obtain ⟨next, hnext, hloop⟩ := hwalks.entersLoop hpassed
    exact hloop.head ⟨node, hnode, rfl, hnext⟩
  · intro hloop
    obtain ⟨container, hcontained, hloop⟩ := hloop.exists_container
    by_contra hends
    rw [Bool.not_eq_true] at hends
    rw [hends] at hwalks
    exact hwalks.not_entersLoop container (hcontained.parent?_eq tree.distinct hnode) hloop

/-- Components with distinct ids that are not in the tree can be added. -/
theorem exists_addNew_of_nodup (hnodup : ((tree.nodes ++ nodes).map Node.id).Nodup) :
    ∃ after, tree.addNew nodes = .ok after := by
  induction nodes generalizing tree with
  | nil => exact ⟨tree, rfl⟩
  | cons node rest ih =>
    have hnew : node.id ∉ tree.ids := by
      rw [List.map_append, List.nodup_append] at hnodup
      exact fun hmem => hnodup.2.2 node.id hmem node.id (List.mem_cons_self) rfl
    rw [addNew, if_neg hnew]
    apply ih
    rwa [nodes_add_of_notMem hnew, List.append_assoc, List.singleton_append]

/-- Making a tree fails at the first repeated id, or at the first component that leads into a
loop, or it succeeds and keeps the components. -/
theorem ofNodes_cases (nodes : List Node) :
    (¬ (nodes.map Node.id).Nodup ∧ ∃ e, ofNodes nodes = .error e) ∨
      (nodes.map Node.id).Nodup ∧ ∃ tree : Tree, tree.nodes = nodes ∧
        ((∃ node, nodes.find? tree.loops = some node ∧
            ofNodes nodes = .error (.invalidDocument (.ownAncestor node.id))) ∨
          nodes.find? tree.loops = none ∧ ofNodes nodes = .ok tree) := by
  unfold ofNodes
  cases hadded : empty.addNew nodes with
  | error e =>
    refine .inl ⟨fun hnodup => ?_, e, rfl⟩
    obtain ⟨after, hafter⟩ : ∃ after, empty.addNew nodes = .ok after :=
      exists_addNew_of_nodup hnodup
    cases hadded.symm.trans hafter
  | ok tree =>
    have hnodes : tree.nodes = nodes := nodes_of_addNew hadded
    refine .inr ⟨hnodes ▸ tree.distinct, tree, hnodes, ?_⟩
    rw [← hnodes]
    cases hfind : tree.nodes.find? tree.loops with
    | some node => exact .inl ⟨node, rfl, by simp [bind, Except.bind, hfind]⟩
    | none => exact .inr ⟨rfl, by simp [bind, Except.bind, hfind]⟩

/-- Some component leads into a loop if one is its own ancestor. -/
theorem forall_not_entersLoop_iff :
    (∀ node ∈ nodes, ¬ EntersLoop nodes node.id) ↔
      ∀ node ∈ nodes, ¬ TransGen (ContainedIn nodes) node.id node.id := by
  constructor
  · intro hnone node hnode hloop
    exact hnone node hnode ⟨node.id, .refl, hloop⟩
  · rintro hnone node _ ⟨other, _, hloop⟩
    obtain ⟨_, ⟨ancestor, hancestor, rfl, _⟩, _⟩ := TransGen.head'_iff.mp hloop
    exact hnone ancestor hancestor hloop

/-- Components make a tree just if their ids differ and none is its own ancestor. -/
theorem exists_ofNodes_iff :
    (∃ tree, ofNodes nodes = .ok tree) ↔
      (nodes.map Node.id).Nodup ∧
        ∀ node ∈ nodes, ¬ TransGen (ContainedIn nodes) node.id node.id := by
  rw [← forall_not_entersLoop_iff]
  obtain ⟨hrepeated, e, herror⟩ | ⟨hnodup, tree, rfl, hrest⟩ := ofNodes_cases nodes
  · simp [hrepeated, herror]
  obtain ⟨node, hfind, herror⟩ | ⟨hfind, hok⟩ := hrest
  · have hnode := List.mem_of_find?_eq_some hfind
    have hloop := (loops_iff hnode).mp (List.find?_some hfind)
    refine ⟨?_, fun h => absurd hloop (h.2 node hnode)⟩
    rintro ⟨after, hok⟩
    cases herror.symm.trans hok
  · refine ⟨fun _ => ⟨hnodup, ?_⟩, fun _ => ⟨tree, hok⟩⟩
    intro node hnode hloop
    exact List.find?_eq_none.mp hfind node hnode ((loops_iff hnode).mpr hloop)

/-- A new component comes last; one with an id of the tree takes the place of that one. -/
theorem ids_add (tree : Tree) (node : Node) :
    (tree.add node).ids = if node.id ∈ tree.ids then tree.ids else tree.ids ++ [node.id] := by
  unfold add
  split
  · exact map_id_replace tree.nodes node
  · simp [ids]

/-- An added component takes the place of the one with its id. -/
theorem mem_nodes_add {node other : Node} :
    other ∈ (tree.add node).nodes ↔ other = node ∨ other ∈ tree.nodes ∧ other.id ≠ node.id := by
  unfold add
  split
  · next hold =>
    obtain ⟨old, hmem, hid⟩ := List.mem_map.mp hold
    simp only [replace, List.mem_map]
    constructor
    · rintro ⟨former, hformer, rfl⟩
      split
      · exact .inl rfl
      · next hne => exact .inr ⟨hformer, hne⟩
    · rintro (rfl | ⟨hother, hne⟩)
      · exact ⟨old, hmem, if_pos hid⟩
      · exact ⟨other, hother, if_neg hne⟩
  · next hnew =>
    have hne : other ∈ tree.nodes → other.id ≠ node.id := fun hother heq =>
      hnew (heq ▸ List.mem_map_of_mem hother)
    simp only [List.mem_append, List.mem_singleton]
    tauto

/-- The tree lists what was added: each id once, at the place where it was added first, with the
component that was added last. -/
structure Lists (added : List Node) (tree : Tree) : Prop where
  mem : ∀ id, id ∈ tree.ids ↔ id ∈ added.map Node.id
  first : tree.ids.Pairwise fun earlier later =>
    (added.map Node.id).idxOf earlier < (added.map Node.id).idxOf later
  last : ∀ node ∈ tree.nodes, (added.filter (·.id == node.id)).getLast? = some node

theorem Lists.empty : Lists [] empty where
  mem _ := .rfl
  first := .nil
  last := List.forall_mem_nil _

/-- One more component is listed as it should be. -/
theorem Lists.add {added : List Node} (h : Lists added tree) (node : Node) :
    Lists (added ++ [node]) (tree.add node) where
  mem id := by
    rw [ids_add, List.map_append, List.mem_append, ← h.mem]
    split
    · next hold => simpa using fun heq : id = node.id => heq ▸ hold
    · simp
  first := by
    have hkept : tree.ids.Pairwise fun earlier later =>
        ((added ++ [node]).map Node.id).idxOf earlier <
          ((added ++ [node]).map Node.id).idxOf later := by
      refine h.first.imp_of_mem ?_
      intro earlier later hearlier hlater hlt
      rwa [List.map_append, List.idxOf_append_of_mem ((h.mem _).mp hearlier),
        List.idxOf_append_of_mem ((h.mem _).mp hlater)]
    rw [ids_add]
    split
    · exact hkept
    · next hnew =>
      refine List.pairwise_append.mpr ⟨hkept, List.pairwise_singleton _ _, ?_⟩
      intro earlier hearlier later hlater
      obtain rfl := List.mem_singleton.mp hlater
      have hbefore := List.idxOf_lt_length_of_mem ((h.mem earlier).mp hearlier)
      rw [List.map_append, List.idxOf_append_of_mem ((h.mem _).mp hearlier),
        List.idxOf_append_of_notMem (mt (h.mem _).mpr hnew)]
      exact Nat.lt_add_right _ hbefore
  last other hother := by
    rw [List.filter_append, List.getLast?_append]
    obtain rfl | ⟨hother, hne⟩ := mem_nodes_add.mp hother
    · simp
    · simpa [hne.symm] using h.last other hother

/-- More components are listed behind what was added before. -/
theorem Lists.foldl_add {added : List Node} (h : Lists added tree) (more : List Node) :
    Lists (added ++ more) (more.foldl Tree.add tree) := by
  induction more generalizing added tree with
  | nil => rwa [List.append_nil]
  | cons node rest ih =>
    have hrest := ih (h.add node)
    rwa [List.append_assoc, List.singleton_append] at hrest

/-- A tree is made of given components exactly if their ids differ and none of them is its own
ancestor, and it has them in their order. The search for loops ends in every tree. A tree that was
built by adding components lists each id once, where it was added first, as it was added last, and
the same tree is made of its components again unless one of them is its own ancestor. -/
theorem ofNodes_decides (nodes added : List Node) :
    ((∃ tree, ofNodes nodes = .ok tree) ↔
        (nodes.map Node.id).Nodup ∧
          ∀ node ∈ nodes, ¬ TransGen (ContainedIn nodes) node.id node.id) ∧
      (∀ tree, ofNodes nodes = .ok tree → tree.nodes = nodes) ∧
      (∀ (tree : Tree) (node : Node), tree.Walks [node.id] node.parent? (tree.loops node)) ∧
      let built := added.foldl add empty
      Lists added built ∧
        ((∃ tree, ofNodes built.nodes = .ok tree) ↔
          ∀ node ∈ built.nodes, ¬ TransGen (ContainedIn built.nodes) node.id node.id) ∧
        ∀ tree, ofNodes built.nodes = .ok tree → tree = built := by
  refine ⟨exists_ofNodes_iff, fun _ => nodes_of_ofNodes, walks_loops,
    Lists.empty.foldl_add added, ?_, ?_⟩
  · rw [exists_ofNodes_iff]
    exact and_iff_right (added.foldl add empty).distinct
  · intro tree hok
    exact eq_of_nodes (nodes_of_ofNodes hok)

/-- Components with distinct ids that make no tree are rejected for the first of them that leads
into a loop. -/
theorem ofNodes_blames_first (hnodup : (nodes.map Node.id).Nodup) {e : GraphError}
    (h : ofNodes nodes = .error e) :
    ∃ before node after, nodes = before ++ node :: after ∧
      e = .invalidDocument (.ownAncestor node.id) ∧ EntersLoop nodes node.id ∧
      ∀ earlier ∈ before, ¬ EntersLoop nodes earlier.id := by
  obtain ⟨hrepeated, _⟩ | ⟨_, tree, rfl, hrest⟩ := ofNodes_cases nodes
  · exact absurd hnodup hrepeated
  obtain ⟨node, hfind, herror⟩ | ⟨_, hok⟩ := hrest
  · obtain ⟨hloops, before, after, hnodes, hbefore⟩ := List.find?_eq_some_iff_append.mp hfind
    have hnode := List.mem_of_find?_eq_some hfind
    refine ⟨before, node, after, hnodes, Except.error.inj (h.symm.trans herror),
      (loops_iff hnode).mp hloops, ?_⟩
    intro earlier hearlier hloop
    have hmem : earlier ∈ tree.nodes := hnodes ▸ List.mem_append_left _ hearlier
    simpa [(loops_iff hmem).mpr hloop] using hbefore earlier hearlier
  · cases hok.symm.trans h

/-- The component `a` contains itself and `x`, which contains nothing. -/
def Sample.hanging : List Node :=
  [{ id := "w", type := Node.workflowType },
   { id := "x", type := "step", parent? := some "a" },
   { id := "a", type := "step", parent? := some "a" }]

/-- The first component that leads into the loop is outside of it. -/
theorem ofNodes_blames_first_hanging :
    (Sample.hanging.map Node.id).Nodup ∧
      ofNodes Sample.hanging = .error (.invalidDocument (.ownAncestor "x")) ∧
      ∃ before node after, Sample.hanging = before ++ node :: after ∧ node.id = "x" ∧
        EntersLoop Sample.hanging node.id ∧
        ∀ earlier ∈ before, ¬ EntersLoop Sample.hanging earlier.id := by
  have hnodup : (Sample.hanging.map Node.id).Nodup := by decide
  have hrejected : ofNodes Sample.hanging = .error (.invalidDocument (.ownAncestor "x")) := by rfl
  obtain ⟨before, node, after, hnodes, herror, hloop, hbefore⟩ :=
    ofNodes_blames_first hnodup hrejected
  have hid : node.id = "x" := by simpa using herror.symm
  exact ⟨hnodup, hrejected, before, node, after, hnodes, hid, hloop, hbefore⟩

/-- So a component is called its own ancestor that is not. -/
theorem ofNodes_blames_no_ancestor :
    (Sample.hanging.map Node.id).Nodup ∧
      ofNodes Sample.hanging = .error (.invalidDocument (.ownAncestor "x")) ∧
      ¬ TransGen (ContainedIn Sample.hanging) "x" "x" := by
  refine ⟨by decide, by rfl, fun hloop => ?_⟩
  obtain ⟨_, _, node, hnode, _, hparent⟩ := TransGen.tail'_iff.mp hloop
  simp only [Sample.hanging, List.mem_cons, List.not_mem_nil, or_false] at hnode
  obtain rfl | rfl | rfl := hnode <;> simp at hparent

end Workflow.Tree
