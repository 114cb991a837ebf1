import Workflow.Proofs.Json.Layout

namespace Workflow.Json

/-- The items of a list and the closing bracket. -/
def writeElements (first : Bool) : List Json → List Char
  | [] => [']']
  | item :: rest => separator first ++ write item ++ writeElements false rest

/-- The members of an object and the closing brace. -/
def writeMembers (first : Bool) : List (String × Json) → List Char
  | [] => ['}']
  | (key, value) :: rest =>
    separator first ++ writeText key ++ ':' :: write value ++ writeMembers false rest

/-- The items behind the first one are written with a comma in front of each. -/
theorem writeItems_eq (items : List Json) : writeItems items = writeElements false items := by
  induction items with
  | nil => rfl
  | cons item rest ih =>
    rw [writeItems, writeElements, ih]
    rfl

theorem writeFields_eq (fields : List (String × Json)) :
    writeFields fields = writeMembers false fields := by
  induction fields with
  | nil => rfl
  | cons field rest ih =>
    rw [writeFields, writeMembers, ih]
    simp [separator]

/-- A list is written as a bracket with its items behind it. -/
theorem write_list (items : List Json) : write (.list items) = '[' :: writeElements true items := by
  cases items with
  | nil => rfl
  | cons item rest =>
    rw [write, writeElements, writeItems_eq]
    rfl

/-- An object is written as a brace with its members behind it. -/
theorem write_object (fields : List (String × Json)) :
    write (.object fields) = '{' :: writeMembers true fields := by
  cases fields with
  | nil => rfl
  | cons field rest =>
    rw [write, writeMembers, writeFields_eq]
    simp [separator]

/-- What is written for a list is the layout without spaces. -/
theorem writeElements_eq (first : Bool) (items : List Json) :
    writeElements first items = listed first (items.map fun item => .bare (write item)) := by
  induction items generalizing first with
  | nil => rfl
  | cons item rest ih =>
    rw [writeElements, List.map_cons, listed, ih, Spaced.chars_bare, List.append_assoc]

/-- What is written for an object is the layout without spaces. -/
theorem writeMembers_eq (first : Bool) (fields : List (String × Json)) :
    writeMembers first fields = membered first
      (fields.map fun field => (.bare (writeText field.1), .bare (write field.2))) := by
  induction fields generalizing first with
  | nil => rfl
  | cons field rest ih =>
    rw [writeMembers, List.map_cons, membered, ih, Spaced.chars_bare, Spaced.chars_bare,
      List.append_assoc, List.append_assoc, List.cons_append]

theorem length_writeMembers (first : Bool) (fields : List (String × Json)) :
    fields.length ≤ (writeMembers first fields).length := by
  have hlength := length_membered first
    (fields.map fun field => (.bare (writeText field.1), .bare (write field.2)))
  rwa [List.length_map, ← writeMembers_eq] at hlength

namespace Reader

variable {α : Type}

/-- Behind a written member stands a comma or a brace. -/
theorem Delimited.writeMembers (fields : List (String × Json)) (rest : List Char) :
    Delimited (writeMembers false fields ++ rest) :=
  writeMembers_eq false fields ▸ .membered _ rest

/-- Behind its opening bracket, a list of items that are read back is read back. -/
theorem listOf_writeElements {item : Reader α} {toJson : α → Json} {list : List α}
    (h : ∀ a ∈ list, Reads item (write (toJson a)) a ∧ Opens (write (toJson a)))
    (rest : List Char) :
    listOf item (writeElements true (list.map toJson) ++ rest) = .ok (list, rest) := by
  have hread := listOf_listed (list.map fun a => (.bare (write (toJson a)), a))
    (List.forall_mem_map.mpr h) .nil rest
  simpa [writeElements_eq, Function.comp_def] using hread

theorem nextKey_close (first : Bool) (rest : List Char) :
    nextKey first ('}' :: rest) = .ok none := rfl

theorem closeObject_close (rest : List Char) : closeObject ('}' :: rest) = .ok rest := rfl

theorem nextKey_member (first : Bool) (key : String) (rest : List Char) :
    nextKey first (separator first ++ writeText key ++ rest) =
      .ok (some (key.toList.flatMap writeChar ++ '"' :: rest)) := by
  rw [List.append_assoc, writeText_append]
  cases first <;> rfl

theorem colon_cons (rest : List Char) : colon (':' :: rest) = .ok rest := rfl

/-- Behind its opening brace, an object of values that are read back is read back. -/
theorem objectOf_writeMembers {depth : Nat} {fields : List (String × Json)}
    (hkeys : (fields.map Prod.fst).Nodup)
    (h : ∀ field ∈ fields, Reads (value depth) (write field.2) field.2) (rest : List Char) :
    objectOf (value depth) (writeMembers true fields ++ rest) = .ok (fields, rest) := by
  have hread := objectOf_membered
    (fields.map fun field => ((.bare (writeText field.1), .bare (write field.2)), field))
    (List.forall_mem_map.mpr fun field hfield => by
      exact ⟨quoted_writeText field.1, h field hfield⟩)
    (by simpa [Function.comp_def] using hkeys) .nil rest
  simpa [writeMembers_eq, Function.comp_def] using hread

end Reader

/-- The values without floating-point numbers: whole numbers fit in 64 bits, and no object has two
members of one name. Such a value is read back exactly as it was written. -/
inductive Exact : Json → Prop where
  | null : Exact .null
  | bool (b : Bool) : Exact (.bool b)
  | int {n : Int} (hfits : Reader.Fits n) : Exact (.int n)
  | text (s : String) : Exact (.text s)
  | list {items : List Json} (hitems : ∀ item ∈ items, Exact item) : Exact (.list items)
  | object {fields : List (String × Json)} (hkeys : (fields.map Prod.fst).Nodup)
      (hfields : ∀ field ∈ fields, Exact field.2) : Exact (.object fields)

theorem depth_le_depthItems {item : Json} {items : List Json} (h : item ∈ items) :
    item.depth ≤ depthItems items := by
  induction items with
  | nil => cases h
  | cons first rest ih =>
    rw [depthItems]
    obtain rfl | hrest := List.mem_cons.mp h
    · exact Nat.le_max_left _ _
    · exact Nat.le_trans (ih hrest) (Nat.le_max_right _ _)

theorem depth_le_depthFields {field : String × Json} {fields : List (String × Json)}
    (h : field ∈ fields) : field.2.depth ≤ depthFields fields := by
  induction fields with
  | nil => cases h
  | cons first rest ih =>
    rw [depthFields]
    obtain rfl | hrest := List.mem_cons.mp h
    · exact Nat.le_max_left _ _
    · exact Nat.le_trans (ih hrest) (Nat.le_max_right _ _)

theorem depth_item_le {item : Json} {items : List Json} {depth : Nat} (h : item ∈ items)
    (hdepth : (list items).depth ≤ depth + 1) : item.depth ≤ depth :=
  Nat.le_trans (depth_le_depthItems h) (Nat.le_of_succ_le_succ hdepth)

theorem depth_field_le (key : String) {value : Json} {fields : List (String × Json)} {depth : Nat}
    (h : (key, value) ∈ fields) (hdepth : (object fields).depth ≤ depth + 1) :
    value.depth ≤ depth :=
  Nat.le_trans (depth_le_depthFields h) (Nat.le_of_succ_le_succ hdepth)

namespace Exact

variable {value : Json}

/-- The written form of a value opens a value. -/
theorem opens (h : Exact value) : Opens (write value) := by
  cases h with
  | null => exact Reader.opens_of_scalar rfl _
  | bool b => cases b <;> exact Reader.opens_of_scalar rfl _
  | @int n hfits =>
    obtain ⟨c, rest, hwritten, hc⟩ := Reader.exists_writeInt_cons n
    rw [write, hwritten]
    exact Reader.opens_of_scalar (Reader.opensScalar_of_number hc) rest
  | text s => exact Reader.opens_of_scalar rfl _
  | list hitems => exact ⟨'[', _, write_list _, rfl, by decide⟩
  | object hkeys hfields => exact ⟨'{', _, write_object _, rfl, by decide⟩

/-- The written form of a value is read as that value if as many levels may nest as it has. -/
theorem reads (h : Exact value) {depth : Nat} (hdepth : value.depth ≤ depth) :
    Reader.Reads (Reader.value depth) (write value) value := by
  induction h generalizing depth with
  | null => exact Reader.scalar_null.value rfl depth
  | bool b =>
    cases b with
    | true => exact Reader.scalar_true.value rfl depth
    | false => exact Reader.scalar_false.value rfl depth
  | @int n hfits =>
    obtain ⟨c, more, hwritten, hc⟩ := Reader.exists_writeInt_cons n
    have hread := Reader.scalar_writeInt hfits
    rw [hwritten] at hread
    rw [write, hwritten]
    exact hread.value (Reader.opensScalar_of_number hc) depth
  | text s => exact (Reader.reads_quoted (quoted_writeText s)).value rfl depth
  | @list items hitems ih =>
    obtain ⟨depth, rfl⟩ := Nat.exists_eq_add_one.mpr (Nat.zero_lt_of_lt hdepth)
    intro rest _
    have hread : Reader.listOf (Reader.value depth) (writeElements true (items.map id) ++ rest) =
        .ok (items, rest) :=
      Reader.listOf_writeElements (fun item hitem =>
        ⟨ih item hitem (depth_item_le hitem hdepth), (hitems item hitem).opens⟩) rest
    rw [List.map_id] at hread
    rw [write_list, List.cons_append, Reader.value_list, hread]
    rfl
  | @object fields hkeys hfields ih =>
    obtain ⟨depth, rfl⟩ := Nat.exists_eq_add_one.mpr (Nat.zero_lt_of_lt hdepth)
    intro rest _
    have hread : Reader.objectOf (Reader.value depth) (writeMembers true fields ++ rest) =
        .ok (fields, rest) :=
      Reader.objectOf_writeMembers hkeys
        (fun field hfield => ih field hfield (depth_field_le _ hfield hdepth)) rest
    rw [write_object, List.cons_append, Reader.value_object, hread]
    rfl

end Exact

/-- A whole text is read if its reader takes all of it. -/
theorem Reader.readAll_of_reads {α : Type} {reader : Reader α} {written : List Char} {a : α}
    (h : Reads reader written a) : readAll reader (String.ofList written) = .ok a := by
  have hread := h [] .nil
  rw [List.append_nil] at hread
  rw [readAll, String.toList_ofList, hread]
  rfl

/-- The compact text of a value is read as that value. -/
theorem Exact.parse_written {value : Json} (h : Exact value) (hdepth : value.depth ≤ depthLimit) :
    parse value.compact = .ok value :=
  Reader.readAll_of_reads (h.reads hdepth)

end Workflow.Json
