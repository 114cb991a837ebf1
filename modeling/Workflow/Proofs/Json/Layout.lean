import Workflow.Proofs.Environment
import Workflow.Proofs.Json.Scalar

namespace Workflow.Json

/-- The text opens a value: it starts with neither a space nor a closing bracket. -/
def Opens (s : List Char) : Prop := ∃ c rest, s = c :: rest ∧ Reader.isSpace c = false ∧ c ≠ ']'

/-- What separates an item or a member from the one before it. -/
def separator (first : Bool) : List Char := if first then [] else [',']

/-- There is nothing but spaces in the text. -/
def Blank (s : List Char) : Prop := ∀ c ∈ s, Reader.isSpace c = true

instance (s : List Char) : Decidable (Blank s) :=
  decidable_of_iff (s.all Reader.isSpace = true) List.all_eq_true

theorem Blank.nil : Blank [] := List.forall_mem_nil _

/-- A text with spaces around it. -/
structure Spaced where
  before : List Char := []
  text : List Char
  behind : List Char := []
  blank_before : Blank before := by exact .nil
  blank_behind : Blank behind := by exact .nil

namespace Spaced

def chars (spaced : Spaced) : List Char := spaced.before ++ (spaced.text ++ spaced.behind)

/-- A text without spaces around it. -/
def bare (text : List Char) : Spaced where
  text

/-- Changes the text and not the spaces. -/
def map (f : List Char → List Char) (spaced : Spaced) : Spaced :=
  { spaced with text := f spaced.text }

@[simp] theorem chars_bare (text : List Char) : (bare text).chars = text := List.append_nil text

end Spaced

/-- Behind an item stands a comma or the bracket that closes the list. -/
def listed (first : Bool) : List Spaced → List Char
  | [] => [']']
  | item :: rest => separator first ++ (item.chars ++ listed false rest)

/-- Behind a member stands a comma or the brace that closes the object. -/
def membered (first : Bool) : List (Spaced × Spaced) → List Char
  | [] => ['}']
  | (key, value) :: rest =>
    separator first ++ (key.chars ++ ':' :: (value.chars ++ membered false rest))

/-- There is a comma in front of each item but the first, and a bracket behind the last. -/
theorem length_listed (first : Bool) (items : List Spaced) :
    items.length ≤ (listed first items).length := by
  have hlater : ∀ items : List Spaced, items.length < (listed false items).length := by
    intro items
    induction items with
    | nil => exact Nat.zero_lt_one
    | cons item rest ih =>
      simp only [listed, separator, Bool.false_eq_true, if_false, List.length_append,
        List.length_cons]
      omega
  cases items with
  | nil => exact Nat.zero_le _
  | cons item rest =>
    have hrest := hlater rest
    simp only [listed, List.length_append, List.length_cons]
    omega

/-- Each member takes up at least one character. -/
theorem length_membered (first : Bool) (fields : List (Spaced × Spaced)) :
    fields.length ≤ (membered first fields).length := by
  induction fields generalizing first with
  | nil => exact Nat.zero_le _
  | cons field rest ih =>
    have hrest := ih false
    simp only [membered, List.length_append, List.length_cons]
    omega

namespace Reader

variable {α : Type}

theorem skipSpace_append {blank : List Char} (h : Blank blank) (rest : List Char) :
    skipSpace (blank ++ rest) = skipSpace rest := List.dropWhile_append_of_pos h

theorem skipSpace_of_opens {s : List Char} (h : Opens s) (rest : List Char) :
    skipSpace (s ++ rest) = s ++ rest := by
  obtain ⟨c, more, rfl, hspace, -⟩ := h
  exact skipSpace_cons hspace _

namespace Delimited

variable {rest : List Char}

theorem blank {blank : List Char} (h : Blank blank) (hrest : Delimited rest) :
    Delimited (blank ++ rest) := by
  cases blank with
  | nil => exact hrest
  | cons c more =>
    rintro d ⟨⟩
    exact Or.inl (h c List.mem_cons_self)

theorem listed (items : List Spaced) (rest : List Char) :
    Delimited (listed false items ++ rest) := by
  cases items with
  | nil => exact .bracket rest
  | cons item more => exact .comma _

theorem membered (fields : List (Spaced × Spaced)) (rest : List Char) :
    Delimited (membered false fields ++ rest) := by
  cases fields with
  | nil => exact .brace rest
  | cons field more => exact .comma _

end Delimited

variable {blank : List Char}

/-- An item starts behind its comma and the spaces around that. -/
theorem nextItem_spaced (hblank : Blank blank) {item : Spaced} (h : Opens item.text) (first : Bool)
    (rest : List Char) :
    nextItem first (blank ++ (separator first ++ (item.chars ++ rest))) =
      .ok (some (item.text ++ (item.behind ++ rest))) := by
  have hskip : skipSpace (item.chars ++ rest) = item.text ++ (item.behind ++ rest) := by
    rw [Spaced.chars, List.append_assoc, List.append_assoc, skipSpace_append item.blank_before,
      skipSpace_of_opens h]
  obtain ⟨c, more, htext, -, hclose⟩ := h
  rw [htext, List.cons_append] at hskip ⊢
  rw [nextItem, skipSpace_append hblank]
  cases first with
  | true => simp [separator, hskip]
  | false =>
    have hcomma : isSpace ',' = false := rfl
    simp [separator, hcomma, hskip, hclose]

/-- Items that are read one by one are read as a list. -/
theorem items_listed {item : Reader α} {list : List (Spaced × α)}
    (h : ∀ entry ∈ list, Reads item entry.1.text entry.2 ∧ Opens entry.1.text) (first : Bool)
    (hblank : Blank blank) {limit : Nat} (hlimit : list.length < limit) (rest : List Char) :
    items item limit first (blank ++ (listed first (list.map Prod.fst) ++ rest)) =
      .ok (list.map Prod.snd, rest) := by
  induction list generalizing first blank limit with
  | nil =>
    obtain ⟨limit, rfl⟩ := Nat.exists_eq_add_one.mpr hlimit
    have hbracket : skipSpace (']' :: rest) = ']' :: rest := skipSpace_cons rfl rest
    simp only [List.map_nil, listed, List.singleton_append, items, nextItem, closeList,
      skipSpace_append hblank, hbracket]
  | cons entry list ih =>
    obtain ⟨limit, rfl⟩ := Nat.exists_eq_add_one.mpr (Nat.zero_lt_of_lt hlimit)
    obtain ⟨⟨hreads, hopens⟩, hmore⟩ := List.forall_mem_cons.mp h
    have hitem := hreads _ (.blank entry.1.blank_behind (.listed (list.map Prod.fst) rest))
    have hlater := ih hmore false entry.1.blank_behind (Nat.lt_of_succ_lt_succ hlimit)
    rw [List.map_cons, listed, items]
    simp only [List.append_assoc, nextItem_spaced hblank hopens, hitem, hlater, List.map_cons]

/-- Behind its opening bracket, a list of items that are read is read. -/
theorem listOf_listed {item : Reader α} (list : List (Spaced × α))
    (h : ∀ entry ∈ list, Reads item entry.1.text entry.2 ∧ Opens entry.1.text)
    (hblank : Blank blank) (rest : List Char) :
    listOf item (blank ++ (listed true (list.map Prod.fst) ++ rest)) =
      .ok (list.map Prod.snd, rest) := by
  refine items_listed h true hblank ?_ rest
  have hlength := length_listed true (list.map Prod.fst)
  rw [List.length_map] at hlength
  rw [List.length_append, List.length_append]
  omega

/-- A name starts behind its comma, the spaces around that and its quote. -/
theorem nextKey_spaced (hblank : Blank blank) {key : Spaced} {named : List Char}
    (h : key.text = '"' :: named) (first : Bool) (rest : List Char) :
    nextKey first (blank ++ (separator first ++ (key.chars ++ rest))) =
      .ok (some (named ++ (key.behind ++ rest))) := by
  have hskip : skipSpace (key.chars ++ rest) = '"' :: (named ++ (key.behind ++ rest)) := by
    rw [Spaced.chars, List.append_assoc, List.append_assoc, skipSpace_append key.blank_before, h]
    exact skipSpace_cons rfl _
  rw [nextKey, skipSpace_append hblank]
  cases first with
  | true => simp [separator, hskip]
  | false =>
    have hcomma : isSpace ',' = false := rfl
    simp [separator, hcomma, hskip]

theorem colon_blank (hblank : Blank blank) (rest : List Char) :
    colon (blank ++ ':' :: rest) = .ok rest := by
  have hcolon : skipSpace (':' :: rest) = ':' :: rest := skipSpace_cons rfl rest
  simp only [colon, skipSpace_append hblank, hcolon]

theorem value_blank (hblank : Blank blank) (depth : Nat) (s : List Char) :
    value depth (blank ++ s) = value depth s := by
  cases depth <;> simp only [value, skipSpace_append hblank]

theorem value_spaced {depth : Nat} {spaced : Spaced} {found : Json}
    (h : Reads (value depth) spaced.text found) {rest : List Char} (hrest : Delimited rest) :
    value depth (spaced.chars ++ rest) = .ok (found, spaced.behind ++ rest) := by
  rw [Spaced.chars, List.append_assoc, List.append_assoc, value_blank spaced.blank_before]
  exact h _ (.blank spaced.blank_behind hrest)

/-- Members whose names and values are read one by one are bound one after the other. -/
theorem members_membered {depth : Nat} {list : List ((Spaced × Spaced) × (String × Json))}
    (h : ∀ entry ∈ list, Quoted entry.2.1 entry.1.1.text ∧
      Reads (value depth) entry.1.2.text entry.2.2) (first : Bool) (bound : Bindings Json)
    (hblank : Blank blank) {limit : Nat} (hlimit : list.length < limit) (rest : List Char) :
    members (value depth) limit first bound
        (blank ++ (membered first (list.map Prod.fst) ++ rest)) =
      .ok (Bindings.insertAll bound (list.map Prod.snd), rest) := by
  induction list generalizing first bound blank limit with
  | nil =>
    obtain ⟨limit, rfl⟩ := Nat.exists_eq_add_one.mpr hlimit
    have hbrace : skipSpace ('}' :: rest) = '}' :: rest := skipSpace_cons rfl rest
    simp only [List.map_nil, membered, List.singleton_append, members, nextKey, closeObject,
      skipSpace_append hblank, hbrace]
    rfl
  | cons entry list ih =>
    obtain ⟨limit, rfl⟩ := Nat.exists_eq_add_one.mpr (Nat.zero_lt_of_lt hlimit)
    obtain ⟨⟨⟨spelled, hquoted, hspells⟩, hreads⟩, hmore⟩ := List.forall_mem_cons.mp h
    obtain ⟨⟨key, value⟩, name, found⟩ := entry
    have hvalue := value_spaced hreads (.membered (list.map Prod.fst) rest)
    have hlater := fun bound =>
      ih hmore false bound value.blank_behind (Nat.lt_of_succ_lt_succ hlimit)
    rw [List.map_cons, membered, members]
    simp only [List.append_assoc, List.cons_append, List.nil_append,
      nextKey_spaced hblank hquoted, text_spelled hspells, colon_blank key.blank_behind, hvalue,
      hlater, List.map_cons, Bindings.insertAll_cons]

/-- Behind its opening brace, an object is read if the names of its members differ and their values
are read. -/
theorem objectOf_membered {depth : Nat} (list : List ((Spaced × Spaced) × (String × Json)))
    (h : ∀ entry ∈ list, Quoted entry.2.1 entry.1.1.text ∧
      Reads (value depth) entry.1.2.text entry.2.2)
    (hkeys : ((list.map Prod.snd).map Prod.fst).Nodup) (hblank : Blank blank) (rest : List Char) :
    objectOf (value depth) (blank ++ (membered true (list.map Prod.fst) ++ rest)) =
      .ok (list.map Prod.snd, rest) := by
  have hlength := length_membered true (list.map Prod.fst)
  rw [List.length_map] at hlength
  have hlimit : list.length <
      (blank ++ (membered true (list.map Prod.fst) ++ rest)).length + 1 := by
    rw [List.length_append, List.length_append]
    omega
  rw [objectOf, members_membered h true [] hblank hlimit rest,
    Bindings.insertAll_of_nodup (b := []) hkeys]
  rfl

/-- A list is read behind its bracket, with one level less for its items. -/
theorem value_list (depth : Nat) (rest : List Char) :
    value (depth + 1) ('[' :: rest) =
      (listOf (value depth) rest).map fun read => (.list read.1, read.2) := by
  have hspace : isSpace '[' = false := rfl
  cases hread : listOf (value depth) rest <;> simp [value, hspace, hread, Except.map]

/-- An object is read behind its brace, with one level less for its members. -/
theorem value_object (depth : Nat) (rest : List Char) :
    value (depth + 1) ('{' :: rest) =
      (objectOf (value depth) rest).map fun read => (.object read.1, read.2) := by
  have hspace : isSpace '{' = false := rfl
  cases hread : objectOf (value depth) rest <;> simp [value, hspace, hread, Except.map]

/-- The first character of a value that is neither a list nor an object. -/
def opensScalar (c : Char) : Bool := !isSpace c && c != '[' && c != ']' && c != '{'

theorem opensScalar_of_number {c : Char} (h : c = '-' ∨ isDigit c = true) :
    opensScalar c = true := by
  obtain rfl | hdigit := h
  · rfl
  · simp only [opensScalar, isSpace, Bool.and_eq_true, bne_iff_ne, Bool.not_eq_true',
      Bool.or_eq_false_iff, beq_eq_false_iff_ne]
    refine ⟨⟨⟨⟨⟨⟨?_, ?_⟩, ?_⟩, ?_⟩, ?_⟩, ?_⟩, ?_⟩ <;>
    · rintro rfl
      cases hdigit

/-- What is read as a scalar is read as a value. -/
theorem Reads.value {c : Char} {more : List Char} {found : Json}
    (h : Reads scalar (c :: more) found) (hopens : opensScalar c = true) (depth : Nat) :
    Reads (value depth) (c :: more) found := by
  intro rest hrest
  rw [← h rest hrest, List.cons_append]
  simp only [opensScalar, Bool.and_eq_true, bne_iff_ne, Bool.not_eq_true'] at hopens
  obtain ⟨⟨⟨hspace, hlist⟩, _⟩, hobject⟩ := hopens
  rw [Reader.value, skipSpace_cons hspace]
  split
  · next heq => exact absurd (List.cons.inj heq).1 hlist
  · next heq => exact absurd (List.cons.inj heq).1 hobject
  · rfl

theorem opens_of_scalar {c : Char} (h : opensScalar c = true) (more : List Char) :
    Opens (c :: more) := by
  simp only [opensScalar, Bool.and_eq_true, bne_iff_ne, Bool.not_eq_true'] at h
  exact ⟨c, more, rfl, h.1.1.1, h.1.2⟩

/-- A list is read as a value if its items are read with one level less. -/
theorem reads_listed {depth : Nat} (list : List (Spaced × Json))
    (h : ∀ entry ∈ list, Reads (value depth) entry.1.text entry.2 ∧ Opens entry.1.text)
    (hblank : Blank blank) :
    Reads (value (depth + 1)) ('[' :: (blank ++ listed true (list.map Prod.fst)))
      (.list (list.map Prod.snd)) := by
  intro rest _
  rw [List.cons_append, List.append_assoc, value_list, listOf_listed list h hblank rest]
  rfl

/-- An object is read as a value if the values of its members are read with one level less. -/
theorem reads_membered {depth : Nat} (list : List ((Spaced × Spaced) × (String × Json)))
    (h : ∀ entry ∈ list, Quoted entry.2.1 entry.1.1.text ∧
      Reads (value depth) entry.1.2.text entry.2.2)
    (hkeys : ((list.map Prod.snd).map Prod.fst).Nodup) (hblank : Blank blank) :
    Reads (value (depth + 1)) ('{' :: (blank ++ membered true (list.map Prod.fst)))
      (.object (list.map Prod.snd)) := by
  intro rest _
  rw [List.cons_append, List.append_assoc, value_object, objectOf_membered list h hkeys hblank rest]
  rfl

end Reader

/-- A whole text may have spaces around what is read. -/
theorem Spaced.parse_chars {spaced : Spaced} {found : Json}
    (h : Reader.Reads (Reader.value depthLimit) spaced.text found) :
    parse (String.ofList spaced.chars) = .ok found := by
  have hread := Reader.value_spaced h .nil
  have hbehind := Reader.skipSpace_append spaced.blank_behind []
  rw [List.append_nil, List.append_nil] at hread
  rw [List.append_nil] at hbehind
  rw [parse, Reader.readAll, String.toList_ofList, hread]
  simp only [bind, Except.bind, hbehind]
  rfl

end Workflow.Json
