import Mathlib.Data.List.Perm.Basic
import Mathlib.Logic.Function.Basic
import Workflow.Json.Value

namespace Workflow

namespace Bindings

/-- Under distinct names, a name leads to the value that it is listed with. -/
theorem find?_of_mem {b : Bindings Json} {name : String} {value : Json}
    (hkeys : (b.map Prod.fst).Nodup) (hmem : (name, value) ∈ b) : find? b name = some value := by
  induction b with
  | nil => cases hmem
  | cons pair rest ih =>
    obtain ⟨hnew, hrest⟩ := List.nodup_cons.mp hkeys
    obtain rfl | hlater := List.mem_cons.mp hmem
    · exact if_pos rfl
    · have hne : pair.1 ≠ name := fun heq =>
        hnew (heq ▸ List.mem_map_of_mem (f := Prod.fst) hlater)
      rw [find?, if_neg hne, ih hrest hlater]

/-- What is bound after one more binding is that or was bound before. -/
theorem mem_of_mem_insert {b : Bindings Json} {name : String} {value : Json}
    {pair : String × Json} (h : pair ∈ insert b name value) : pair = (name, value) ∨ pair ∈ b := by
  induction b with
  | nil => exact Or.inl (List.mem_singleton.mp h)
  | cons first rest ih =>
    obtain ⟨key, old⟩ := first
    rw [insert] at h
    split at h
    · next hkey =>
      subst hkey
      obtain rfl | hrest := List.mem_cons.mp h
      · exact Or.inl rfl
      · exact Or.inr (List.mem_cons_of_mem _ hrest)
    · obtain rfl | hrest := List.mem_cons.mp h
      · exact Or.inr List.mem_cons_self
      · exact (ih hrest).imp_right (List.mem_cons_of_mem _)

end Bindings

namespace Json

/-- A value in which the members of objects have no order. Lists are kept as they stand. -/
inductive Unordered where
  | plain (value : Json)
  | object (members : String → Option Unordered)

/-- What the members of an object lead to. -/
abbrev Members := String → Option Unordered

mutual

/-- Forgets the order of members. -/
def unordered : Json → Unordered
  | .object fields => .object (members fields)
  | value => .plain value
  termination_by structural value => value

/-- What each name leads to among the members. -/
def members : List (String × Json) → Members
  | [], _ => none
  | (key, value) :: rest, name => if key = name then some (unordered value) else members rest name
  termination_by structural fields => fields

end

/-- Both values are equal when the order of object members is ignored. -/
def Alike (value other : Json) : Prop := value.unordered = other.unordered

/-- The values that JSON can express: no number is indefinite, and no object has two members of one
name. -/
inductive Regular : Json → Prop where
  | null : Regular .null
  | bool (b : Bool) : Regular (.bool b)
  | int (n : Int) : Regular (.int n)
  | float {x : Float} (hnumber : (x == x) = true) : Regular (.float x)
  | text (s : String) : Regular (.text s)
  | list {items : List Json} (hitems : ∀ item ∈ items, Regular item) : Regular (.list items)
  | object {fields : List (String × Json)} (hkeys : (fields.map Prod.fst).Nodup)
      (hfields : ∀ field ∈ fields, Regular field.2) : Regular (.object fields)

/-- A member leads to what its name is first bound to. -/
theorem members_eq_map_find? (fields : Bindings Json) (name : String) :
    members fields name = (Bindings.find? fields name).map unordered := by
  induction fields with
  | nil => rfl
  | cons field rest ih =>
    obtain ⟨key, value⟩ := field
    rw [members, Bindings.find?]
    split
    · rfl
    · exact ih

/-- Binding a member changes what that member leads to and nothing else. -/
theorem members_insert (fields : Bindings Json) (name : String) (value : Json) :
    members (Bindings.insert fields name value) =
      Function.update (members fields) name (some value.unordered) := by
  funext other
  rw [members_eq_map_find?]
  by_cases h : name = other
  · subst h
    rw [Bindings.find?_insert_self, Function.update_self]
    rfl
  · rw [Bindings.find?_insert_of_ne _ _ h, Function.update_of_ne (Ne.symm h),
      members_eq_map_find?]

namespace Alike

theorem refl (value : Json) : Alike value value := rfl

theorem members_eq {fields others : Bindings Json} (h : Alike (.object fields) (.object others)) :
    members fields = members others := Unordered.object.inj h

/-- A value that is alike an object is one. -/
theorem exists_object {fields : Bindings Json} {other : Json} (h : Alike (.object fields) other) :
    ∃ others, other = .object others := by
  cases other with
  | object others => exact ⟨others, rfl⟩
  | _ => cases h

/-- A value that is no object is alike no other value. -/
theorem eq_of_plain {value other : Json} (hplain : value.unordered = .plain value)
    (h : Alike value other) : other = value := by
  have hother : other.unordered = .plain value := h.symm.trans hplain
  cases other with
  | object others => cases hother
  | _ => exact Unordered.plain.inj hother

/-- A member has a counterpart under the same name. -/
theorem find? {fields others : Bindings Json} (h : members fields = members others) {name : String}
    {value : Json} (hfind : Bindings.find? fields name = some value) :
    ∃ other, Bindings.find? others name = some other ∧ Alike value other := by
  have hname := congrFun h name
  rw [members_eq_map_find?, members_eq_map_find?, hfind, Option.map_some] at hname
  obtain ⟨other, hother, heq⟩ := Option.map_eq_some_iff.mp hname.symm
  exact ⟨other, hother, heq.symm⟩

end Alike

/-- Objects that lead to the same have equally many members. -/
theorem length_eq_of_members_eq {fields others : Bindings Json}
    (hkeys : (fields.map Prod.fst).Nodup) (hothers : (others.map Prod.fst).Nodup)
    (h : members fields = members others) : fields.length = others.length := by
  have hperm : (fields.map Prod.fst).Perm (others.map Prod.fst) := by
    refine (List.perm_ext_iff_of_nodup hkeys hothers).mpr fun name => ?_
    have hname : (Bindings.find? fields name).isNone = (Bindings.find? others name).isNone := by
      have hmapped := congrArg Option.isNone (congrFun h name)
      rwa [members_eq_map_find?, members_eq_map_find?, Option.isNone_map, Option.isNone_map]
        at hmapped
    rw [← not_iff_not]
    change name ∉ Bindings.keys fields ↔ name ∉ Bindings.keys others
    rw [← Bindings.find?_eq_none_iff, ← Bindings.find?_eq_none_iff, ← Option.isNone_iff_eq_none,
      ← Option.isNone_iff_eq_none, hname]
  simpa using hperm.length_eq

/-- A list is the same as itself if its items are. -/
theorem sameItems_self {items : List Json} (h : ∀ item ∈ items, same item item = true) :
    sameItems items items = true := by
  induction items with
  | nil => rfl
  | cons item rest ih =>
    obtain ⟨hitem, hrest⟩ := List.forall_mem_cons.mp h
    rw [sameItems, hitem, ih hrest]
    rfl

/-- Members are the same as others if each has a counterpart. -/
theorem sameFields_of_forall {fields : List (String × Json)} {others : Bindings Json}
    (h : ∀ field ∈ fields, ∃ other, Bindings.find? others field.1 = some other ∧
      same field.2 other = true) : sameFields fields others = true := by
  induction fields with
  | nil => rfl
  | cons field rest ih =>
    obtain ⟨⟨other, hfind, hsame⟩, hrest⟩ := List.forall_mem_cons.mp h
    rw [sameFields, hfind, ih hrest]
    simp [hsame]

/-- Values that are alike are the same. -/
theorem Regular.same_of_alike {value other : Json} (hvalue : Regular value) (hother : Regular other)
    (h : Alike value other) : same value other = true := by
  induction hvalue generalizing other with
  | null =>
    rw [h.eq_of_plain rfl]
    rfl
  | bool b =>
    rw [h.eq_of_plain rfl]
    exact beq_self_eq_true b
  | int n =>
    rw [h.eq_of_plain rfl]
    exact beq_self_eq_true n
  | float hnumber =>
    rw [h.eq_of_plain rfl]
    exact hnumber
  | text s =>
    rw [h.eq_of_plain rfl]
    exact beq_self_eq_true s
  | list hitems ih =>
    rw [h.eq_of_plain rfl]
    exact sameItems_self fun item hitem => ih item hitem (hitems item hitem) (.refl item)
  | @object fields hkeys hfields ih =>
    obtain ⟨others, rfl⟩ := h.exists_object
    cases hother with
    | object hotherKeys hothers =>
      have hlength := length_eq_of_members_eq hkeys hotherKeys h.members_eq
      have hsame : sameFields fields others = true := by
        refine sameFields_of_forall fun field hfield => ?_
        obtain ⟨found, hfind, halike⟩ :=
          Alike.find? h.members_eq (Bindings.find?_of_mem hkeys hfield)
        exact ⟨found, hfind, ih field hfield
          (hothers _ (Bindings.mem_of_find?_eq_some hfind)) halike⟩
      rw [same, hsame, hlength, beq_self_eq_true]
      rfl

/-- An object stays regular when a regular value is bound in it. -/
theorem Regular.insert {fields : Bindings Json} (h : Regular (.object fields)) (name : String)
    {value : Json} (hvalue : Regular value) :
    Regular (.object (Bindings.insert fields name value)) := by
  cases h with
  | object hkeys hfields =>
    refine .object (Bindings.nodup_keys_insert hkeys name value) fun field hfield => ?_
    obtain rfl | hold := Bindings.mem_of_mem_insert hfield
    · exact hvalue
    · exact hfields field hold

end Json

end Workflow
