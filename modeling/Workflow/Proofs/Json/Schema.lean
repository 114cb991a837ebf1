import Workflow.Json.Reader.Schema
import Workflow.Proofs.Json.Written

namespace Workflow.Json

namespace Reader

variable {α : Type}

/-- A text is read back as a field. -/
theorem reads_plainText (s : String) : Reads plainText (writeText s) s := by
  intro rest _
  have hspace : isSpace '"' = false := rfl
  rw [writeText_append]
  simp [plainText, textAs, hspace, text_written]

/-- A text is not taken for `null`. -/
theorem reads_optional_plainText (s : String) :
    Reads (optional plainText) (writeText s) (some s) := by
  intro rest hrest
  have hspace : isSpace '"' = false := rfl
  have hread := reads_plainText s rest hrest
  rw [writeText_append] at hread ⊢
  simp [optional, hspace, hread, Except.map]

/-- A list is read if its items are, each with as many levels as it has. -/
theorem reads_sequence {item : Nat → Reader α} {toJson : α → Json} {list : List α} {depth : Nat}
    (h : ∀ a ∈ list, ∀ depth, (toJson a).depth ≤ depth → Reads (item depth) (write (toJson a)) a)
    (hopens : ∀ a ∈ list, Opens (write (toJson a)))
    (hdepth : (Json.list (list.map toJson)).depth ≤ depth) :
    Reads (sequence item depth) (write (.list (list.map toJson))) list := by
  obtain ⟨depth, rfl⟩ := Nat.exists_eq_add_one.mpr (Nat.zero_lt_of_lt hdepth)
  intro rest _
  have hspace : isSpace '[' = false := rfl
  have hitems : ∀ a ∈ list, Reads (item depth) (write (toJson a)) a ∧ Opens (write (toJson a)) := by
    intro a ha
    have hlevel : (toJson a).depth ≤ depth := depth_item_le (List.mem_map_of_mem ha) hdepth
    exact ⟨h a ha depth hlevel, hopens a ha⟩
  have hread := listOf_writeElements hitems rest
  rw [write_list, List.cons_append]
  simp [sequence, hspace, hread]

/-- An object of values that can be written exactly is read back as a field. -/
theorem reads_mapping {fields : Bindings Json} {depth : Nat} (h : Exact (.object fields))
    (hdepth : (Json.object fields).depth ≤ depth) :
    Reads (mapping depth) (write (.object fields)) fields := by
  obtain ⟨depth, rfl⟩ := Nat.exists_eq_add_one.mpr (Nat.zero_lt_of_lt hdepth)
  obtain _ | _ | _ | _ | _ | ⟨hkeys, hfields⟩ := h
  intro rest _
  have hspace : isSpace '{' = false := rfl
  have hread : objectOf (value depth) (writeMembers true fields ++ rest) = .ok (fields, rest) :=
    objectOf_writeMembers hkeys
      (fun field hfield => (hfields field hfield).reads (depth_field_le _ hfield hdepth)) rest
  rw [write_object, List.cons_append]
  simp [mapping, hspace, hread]

end Reader

namespace Schema

variable {σ α : Type} {schema : Schema σ α} {depth : Nat} {fields : List (String × Json)}

/-- The members are fields of the record that the draft does not have yet. Read one after the other,
they complete the draft to another one. -/
inductive Fills (schema : Schema σ α) (depth : Nat) : σ → List (String × Json) → σ → Prop where
  | done (draft : σ) : Fills schema depth draft [] draft
  | field {draft next last : σ} {key : String} {value : Json} {rest : List (String × Json)}
      {field : Field σ} (hfind : schema.fields.find? (·.name == key) = some field)
      (hnew : field.present draft = false)
      (hreads : Reader.Reads (field.read depth draft) (write value) next)
      (hrest : Fills schema depth next rest last) :
      Fills schema depth draft ((key, value) :: rest) last

/-- A field whose reader hands on what it has read to the draft. -/
theorem Fills.set {β : Type} {reader : Reader β} {draft last : σ} {key : String} {value : Json}
    {rest : List (String × Json)} {field : Field σ} {b : β}
    (hfind : schema.fields.find? (·.name == key) = some field) (hnew : field.present draft = false)
    (hreads : Reader.Reads reader (write value) b) (put : β → σ)
    (hput : ∀ s, field.read depth draft s = (reader s).map fun read => (put read.1, read.2))
    (hrest : schema.Fills depth (put b) rest last) :
    schema.Fills depth draft ((key, value) :: rest) last := by
  refine .field hfind hnew ?_ hrest
  intro more hmore
  rw [hput, hreads more hmore]
  rfl

/-- Members that complete a draft are read as the record that it becomes. -/
theorem Fills.members {draft last : σ} {made : α} (h : schema.Fills depth draft fields last)
    (hfinish : schema.finish last = .ok made) (first : Bool) {limit : Nat}
    (hlimit : fields.length < limit) (rest : List Char) :
    schema.members depth limit first draft (writeMembers first fields ++ rest) =
      .ok (made, rest) := by
  induction h generalizing first limit with
  | done draft =>
    obtain ⟨limit, rfl⟩ := Nat.exists_eq_add_one.mpr hlimit
    have hclosed : writeMembers first [] ++ rest = '}' :: rest := rfl
    rw [hclosed, Schema.members]
    simp only [Reader.nextKey_close, Reader.closeObject_close, hfinish, bind, Except.bind]
  | @field draft next last key value fields field hfind hnew hreads _ ih =>
    obtain ⟨limit, rfl⟩ := Nat.exists_eq_add_one.mpr (Nat.zero_lt_of_lt hlimit)
    have hnext := Reader.nextKey_member first key
      (':' :: (write value ++ (writeMembers false fields ++ rest)))
    have hread := hreads _ (.writeMembers fields rest)
    rw [writeMembers, Schema.members]
    simp only [List.append_assoc, List.cons_append] at hnext ⊢
    simp only [hnext, Reader.text_written, hfind, hnew, Reader.colon_cons, hread, bind,
      Except.bind, Bool.false_eq_true, if_false]
    exact ih hfinish false (Nat.lt_of_succ_lt_succ hlimit)

/-- An object whose members complete the empty draft is read as the record that it becomes. -/
theorem Fills.reads {last : σ} {made : α} (h : schema.Fills depth schema.empty fields last)
    (hfinish : schema.finish last = .ok made) :
    Reader.Reads (schema.read (depth + 1)) (write (.object fields)) made := by
  intro rest _
  have hspace : Reader.isSpace '{' = false := rfl
  have hlength := length_writeMembers true fields
  have hlimit : fields.length < (writeMembers true fields ++ rest).length + 1 := by
    rw [List.length_append]
    omega
  have hread := h.members hfinish true hlimit rest
  rw [List.length_append] at hread
  rw [write_object, List.cons_append]
  simp [read, hspace, hread]

end Schema

end Workflow.Json
