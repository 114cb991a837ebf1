import Mathlib.Data.List.Nodup
import Workflow.Environment

namespace Workflow

namespace Bindings

universe u

variable {α : Type u} {b : Bindings α} {more : List (String × α)} {name : String}

/-- A name that is not among the new ones keeps its value. -/
theorem find?_insertAll_of_notMem (h : name ∉ more.map Prod.fst) :
    find? (insertAll b more) name = find? b name := by
  induction more generalizing b with
  | nil => rfl
  | cons pair rest ih =>
    rw [List.map_cons, List.mem_cons, not_or] at h
    obtain ⟨hne, hrest⟩ := h
    rw [insertAll_cons, ih hrest, find?_insert_of_ne _ _ (Ne.symm hne)]

/-- A new name is bound to its new value. -/
theorem find?_insertAll_of_mem {value : α} (hnodup : (more.map Prod.fst).Nodup)
    (h : (name, value) ∈ more) : find? (insertAll b more) name = some value := by
  induction more generalizing b with
  | nil => cases h
  | cons pair rest ih =>
    obtain ⟨hnew, hrest⟩ := List.nodup_cons.mp hnodup
    rw [insertAll_cons]
    obtain rfl | hmem := List.mem_cons.mp h
    · rw [find?_insertAll_of_notMem hnew, find?_insert_self]
    · exact ih hrest hmem

/-- The names that were bound come first, in their old order, and then those that are new. -/
theorem keys_insertAll (hnodup : (more.map Prod.fst).Nodup) :
    (insertAll b more).keys = b.keys ++ (more.map Prod.fst).filter (· ∉ b.keys) := by
  induction more generalizing b with
  | nil => simp
  | cons pair rest ih =>
    obtain ⟨hnew, hrest⟩ := List.nodup_cons.mp hnodup
    rw [insertAll_cons, ih hrest, keys_insert, List.map_cons]
    by_cases hbound : pair.1 ∈ b.keys
    · rw [if_pos hbound, List.filter_cons_of_neg (by simpa using hbound)]
    · have hlater : (rest.map Prod.fst).filter (· ∉ b.keys ++ [pair.1]) =
          (rest.map Prod.fst).filter (· ∉ b.keys) := by
        apply List.filter_congr
        intro other hother
        have hne : other ≠ pair.1 := fun heq => hnew (heq ▸ hother)
        simp [hne]
      rw [if_neg hbound, hlater, List.filter_cons_of_pos (by simpa using hbound),
        List.append_assoc, List.singleton_append]

/-- A binding of a new name comes last. -/
theorem insert_of_notMem {value : α} (h : name ∉ b.keys) :
    insert b name value = b ++ [(name, value)] := by
  induction b with
  | nil => rfl
  | cons pair rest ih =>
    rw [keys, List.map_cons, List.mem_cons, not_or] at h
    obtain ⟨hne, hrest⟩ := h
    rw [insert, if_neg (Ne.symm hne), ih hrest, List.cons_append]

/-- Pairs with names that are all new are appended as they are. -/
theorem insertAll_of_nodup (hnodup : ((b ++ more).map Prod.fst).Nodup) :
    insertAll b more = b ++ more := by
  induction more generalizing b with
  | nil => exact (List.append_nil b).symm
  | cons pair rest ih =>
    have hnew : pair.1 ∉ b.keys := by
      rw [List.map_append, List.map_cons] at hnodup
      intro hmem
      exact (List.nodup_append.mp hnodup).2.2 _ hmem _ List.mem_cons_self rfl
    have hmoved : b ++ pair :: rest = (b ++ [pair]) ++ rest := by simp
    rw [insertAll_cons, insert_of_notMem hnew, hmoved]
    exact ih (hmoved ▸ hnodup)

theorem ofList_of_nodup (hnodup : (more.map Prod.fst).Nodup) : ofList more = more :=
  insertAll_of_nodup (b := []) hnodup

end Bindings

namespace Environment

variable {env : Environment} {bindings : List (String × Json)} {name : String}

theorem get?_extend_of_notMem (h : name ∉ bindings.map Prod.fst) :
    (env.extend bindings).get? name = env.get? name :=
  Bindings.find?_insertAll_of_notMem h

theorem get?_extend_of_mem {value : Json} (hnodup : (bindings.map Prod.fst).Nodup)
    (h : (name, value) ∈ bindings) : (env.extend bindings).get? name = some value :=
  Bindings.find?_insertAll_of_mem hnodup h

/-- Names that were bound keep their places; new ones come behind them. -/
theorem keys_extend (hnodup : (bindings.map Prod.fst).Nodup) :
    (env.extend bindings).vars.keys =
      env.vars.keys ++ (bindings.map Prod.fst).filter (· ∉ env.vars.keys) :=
  Bindings.keys_insertAll hnodup

end Environment

end Workflow
