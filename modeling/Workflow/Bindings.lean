namespace Workflow

universe u v

/-- Values by name, in the order in which their names were first bound. Binding a name again changes
its value and not its place, so the list of names is also the order in which a reader sees them. -/
abbrev Bindings (α : Type u) := List (String × α)

namespace Bindings

variable {α : Type u} {β : Type v}

def find? : Bindings α → String → Option α
  | [], _ => none
  | (key, value) :: rest, name => if key = name then some value else find? rest name

def contains (b : Bindings α) (name : String) : Bool := (b.find? name).isSome

/-- Binds `name`, in place if it is bound already and at the end if it is not. -/
def insert : Bindings α → String → α → Bindings α
  | [], name, value => [(name, value)]
  | (key, old) :: rest, name, value =>
    if key = name then (key, value) :: rest else (key, old) :: insert rest name value

/-- Binds the pairs of `more` one after the other, so that a later pair wins. -/
def insertAll (b : Bindings α) (more : List (String × α)) : Bindings α :=
  more.foldl (fun b pair => insert b pair.1 pair.2) b

/-- The bindings made by the pairs, from left to right. -/
def ofList (pairs : List (String × α)) : Bindings α := insertAll [] pairs

def keys (b : Bindings α) : List String := b.map Prod.fst

@[simp] theorem find?_nil (name : String) : find? ([] : Bindings α) name = none := rfl

@[simp] theorem insertAll_nil (b : Bindings α) : insertAll b [] = b := rfl

@[simp] theorem insertAll_cons (b : Bindings α) (pair : String × α) (more : List (String × α)) :
    insertAll b (pair :: more) = insertAll (insert b pair.1 pair.2) more := rfl

@[simp] theorem find?_insert_self (b : Bindings α) (name : String) (value : α) :
    find? (insert b name value) name = some value := by
  induction b with
  | nil => simp [insert, find?]
  | cons pair rest ih =>
    by_cases h : pair.1 = name <;> simp [insert, find?, h, ih]

/-- Binding a name does not touch the others. -/
theorem find?_insert_of_ne (b : Bindings α) {name other : String} (value : α) (h : name ≠ other) :
    find? (insert b name value) other = find? b other := by
  induction b with
  | nil => simp [insert, find?, h]
  | cons pair rest ih =>
    by_cases hname : pair.1 = name
    · simp [insert, find?, hname, h]
    · simp [insert, find?, hname, ih]

/-- Binding a name twice in a row leaves the second value only. -/
theorem insert_insert_self (b : Bindings α) (name : String) (first second : α) :
    insert (insert b name first) name second = insert b name second := by
  induction b with
  | nil => simp [insert]
  | cons pair rest ih =>
    by_cases h : pair.1 = name <;> simp [insert, h, ih]

/-- A name without a value is not bound. -/
theorem find?_eq_none_iff {b : Bindings α} {name : String} :
    find? b name = none ↔ name ∉ b.keys := by
  induction b with
  | nil => simp [keys]
  | cons pair rest ih =>
    by_cases h : pair.1 = name
    · simp [find?, keys, h]
    · have hne : name ≠ pair.1 := fun heq => h heq.symm
      simpa [find?, keys, h, hne] using ih

/-- A value that is found is bound to the name. -/
theorem mem_of_find?_eq_some {b : Bindings α} {name : String} {value : α}
    (hfind : find? b name = some value) : (name, value) ∈ b := by
  induction b with
  | nil => simp at hfind
  | cons pair rest ih =>
    by_cases h : pair.1 = name
    · obtain rfl : pair.2 = value := by simpa [find?, h] using hfind
      simp [← h]
    · exact List.mem_cons_of_mem _ (ih (by simpa [find?, h] using hfind))

/-- A name that is bound keeps its place; a new one comes last. -/
theorem keys_insert (b : Bindings α) (name : String) (value : α) :
    (insert b name value).keys = if name ∈ b.keys then b.keys else b.keys ++ [name] := by
  induction b with
  | nil => simp [insert, keys]
  | cons pair rest ih =>
    by_cases h : pair.1 = name
    · simp [insert, keys, h]
    · have hne : name ≠ pair.1 := fun heq => h heq.symm
      have ih' := ih
      simp only [keys] at ih' ⊢
      by_cases hmem : name ∈ rest.map Prod.fst <;> simp [insert, h, hne, ih', hmem]

/-- Names that differ still do when one is bound. -/
theorem nodup_keys_insert {b : Bindings α} (h : b.keys.Nodup) (name : String) (value : α) :
    (insert b name value).keys.Nodup := by
  rw [keys_insert]
  split
  · exact h
  · rename_i hname
    rw [List.nodup_append]
    refine ⟨h, by simp, ?_⟩
    intro a ha c hc heq
    rw [List.mem_singleton] at hc
    exact hname (hc ▸ heq ▸ ha)

end Bindings

end Workflow
