import Mathlib.Data.List.Nodup
import Workflow.Run.Scope

namespace Workflow.Scope

@[simp] theorem resolving_insert (scope : Scope) (record : Record) :
    (scope.insert record).resolving = scope.resolving := by
  unfold insert
  split <;> rfl

@[simp] theorem started_insert (scope : Scope) (record : Record) :
    (scope.insert record).started = scope.started := by
  unfold insert
  split <;> rfl

@[simp] theorem resolving_start (scope : Scope) (id : String) :
    (scope.start id).resolving = scope.resolving := rfl

@[simp] theorem records_start (scope : Scope) (id : String) :
    (scope.start id).records = scope.records := rfl

@[simp] theorem started_start (scope : Scope) (id : String) :
    (scope.start id).started = scope.started ++ [id] := rfl

@[simp] theorem get?_start (scope : Scope) (id other : String) :
    (scope.start id).get? other = scope.get? other := rfl

@[simp] theorem resolving_enter (scope : Scope) (id : String) :
    (scope.enter id).resolving = id :: scope.resolving := rfl

@[simp] theorem records_enter (scope : Scope) (id : String) :
    (scope.enter id).records = scope.records := rfl

@[simp] theorem started_enter (scope : Scope) (id : String) :
    (scope.enter id).started = scope.started := rfl

@[simp] theorem resolving_leave (scope : Scope) (id : String) :
    (scope.leave id).resolving = scope.resolving.erase id := rfl

@[simp] theorem records_leave (scope : Scope) (id : String) :
    (scope.leave id).records = scope.records := rfl

@[simp] theorem started_leave (scope : Scope) (id : String) :
    (scope.leave id).started = scope.started := rfl

/-- The index holds the position of each component's record, and nothing else. -/
def Indexed (scope : Scope) : Prop :=
  ∀ id i, scope.index.find? id = some i ↔ scope.records[i]?.map Record.id = some id

namespace Indexed

variable {scope : Scope}

theorem empty : Indexed {} := by
  intro id i
  simp

theorem start (hindexed : scope.Indexed) (id : String) : (scope.start id).Indexed := hindexed

theorem enter (hindexed : scope.Indexed) (id : String) : (scope.enter id).Indexed := hindexed

theorem leave (hindexed : scope.Indexed) (id : String) : (scope.leave id).Indexed := hindexed

/-- No component has two records, since both would be at its position. -/
theorem nodup (hindexed : scope.Indexed) : (scope.records.map Record.id).Nodup := by
  rw [List.nodup_iff_injective_getElem]
  intro ⟨i, hi⟩ ⟨j, hj⟩ heq
  rw [List.length_map] at hi hj
  have hfirst := (hindexed scope.records[i].id i).mpr (by simp [hi])
  have hsecond := (hindexed scope.records[i].id j).mpr (by simpa [hj] using heq.symm)
  simpa using Option.some.inj (hfirst.symm.trans hsecond)

/-- A record is found by the id of its component, and only by that. -/
theorem get?_eq_some_iff (hindexed : scope.Indexed) {id : String} {record : Record} :
    scope.get? id = some record ↔ record ∈ scope.records ∧ record.id = id := by
  unfold Scope.get?
  rw [Option.bind_eq_some_iff]
  constructor
  · rintro ⟨i, hfind, hrecord⟩
    have hid := (hindexed id i).mp hfind
    rw [hrecord] at hid
    exact ⟨List.mem_of_getElem? hrecord, by simpa using hid⟩
  · rintro ⟨hmem, hid⟩
    obtain ⟨i, hi⟩ := List.mem_iff_getElem?.mp hmem
    exact ⟨i, (hindexed id i).mpr (by simp [hi, hid]), hi⟩

/-- No record is found just where no component of that id has one. -/
theorem get?_eq_none_iff (hindexed : scope.Indexed) {id : String} :
    scope.get? id = none ↔ id ∉ scope.records.map Record.id := by
  rw [Option.eq_none_iff_forall_ne_some]
  constructor
  · rintro hnone hmem
    obtain ⟨record, hrecord, hid⟩ := List.mem_map.mp hmem
    exact hnone record (hindexed.get?_eq_some_iff.mpr ⟨hrecord, hid⟩)
  · intro hmem record hrecord
    obtain ⟨hrecord, hid⟩ := hindexed.get?_eq_some_iff.mp hrecord
    exact hmem (List.mem_map.mpr ⟨record, hrecord, hid⟩)

theorem find?_eq_none (hindexed : scope.Indexed) {id : String} (hnew : scope.get? id = none) :
    scope.index.find? id = none := by
  rw [hindexed.get?_eq_none_iff] at hnew
  cases hfind : scope.index.find? id with
  | none => rfl
  | some i =>
    obtain ⟨record, hrecord, hid⟩ := Option.map_eq_some_iff.mp ((hindexed id i).mp hfind)
    exact absurd (List.mem_map.mpr ⟨record, List.mem_of_getElem? hrecord, hid⟩) hnew

/-- The record of a component without one is stored at the end. -/
theorem insert_eq (hindexed : scope.Indexed) {record : Record}
    (hnew : scope.get? record.id = none) :
    scope.insert record =
      { scope with
        records := scope.records ++ [record]
        index := scope.index.insert record.id scope.records.length } := by
  unfold Scope.insert
  rw [hindexed.find?_eq_none hnew]

theorem records_insert (hindexed : scope.Indexed) {record : Record}
    (hnew : scope.get? record.id = none) :
    (scope.insert record).records = scope.records ++ [record] := by
  rw [hindexed.insert_eq hnew]

/-- A new record is found in the scope that it is stored in. -/
theorem insert (hindexed : scope.Indexed) {record : Record} (hnew : scope.get? record.id = none) :
    (scope.insert record).Indexed := by
  intro id i
  have hunknown := hindexed.find?_eq_none hnew
  rw [hindexed.insert_eq hnew]
  dsimp only
  by_cases hid : record.id = id
  · subst hid
    rw [Bindings.find?_insert_self]
    constructor
    · intro hi
      obtain rfl := Option.some.inj hi
      simp
    · intro hi
      rcases Nat.lt_or_ge i scope.records.length with hlt | hge
      · rw [List.getElem?_append_left hlt] at hi
        rw [(hindexed _ _).mpr hi] at hunknown
        cases hunknown
      · have hlast : i < (scope.records ++ [record]).length := by
          by_contra hnot
          rw [List.getElem?_eq_none (by omega)] at hi
          cases hi
        rw [List.length_append, List.length_singleton] at hlast
        congr 1
        omega
  · rw [Bindings.find?_insert_of_ne _ _ hid, hindexed id i]
    rcases Nat.lt_or_ge i scope.records.length with hlt | hge
    · rw [List.getElem?_append_left hlt]
    · rw [List.getElem?_append_right hge, List.getElem?_eq_none hge]
      cases hlast : i - scope.records.length with
      | zero => simpa using hid
      | succ more => simp

/-- The record of a component that was started is stored as that of any other. -/
theorem insert_start (hindexed : scope.Indexed) {id : String} {record : Record}
    (hnew : scope.get? id = none) (hid : record.id = id) :
    ((scope.start id).insert record).Indexed ∧
      ((scope.start id).insert record).records = scope.records ++ [record] := by
  subst hid
  exact ⟨(hindexed.start _).insert hnew, (hindexed.start _).records_insert hnew⟩

end Indexed

end Workflow.Scope
