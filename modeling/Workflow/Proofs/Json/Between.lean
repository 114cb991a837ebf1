import Mathlib.Data.List.TakeWhile
import Workflow.Proofs.Json.Layout
import Workflow.Proofs.Json.Settled

namespace Workflow.Json

/-- What stands behind a text without quotes: the last string of a list, or an escape. -/
inductive Tail : List Char → Prop where
  | last {s : List Char} (h : Unescaped s) : Tail ('"' :: (s ++ ['"', ']']))
  | escape (more : List Char) : Tail ('\\' :: more)

/-- What stands behind the text begins with a mark. -/
theorem Tail.exists_mark {t : List Char} (h : Tail t) :
    ∃ mark more, Mark mark ∧ t = mark :: more := by
  cases h with
  | last => exact ⟨'"', _, Or.inl rfl, rfl⟩
  | escape more => exact ⟨'\\', more, Or.inr rfl, rfl⟩

namespace Reader

/-- A text is spaces and what follows them. -/
theorem exists_core (s : List Char) :
    ∃ blank core, s = blank ++ core ∧ Blank blank ∧ ∀ c ∈ core.head?, isSpace c = false := by
  refine ⟨s.takeWhile isSpace, s.dropWhile isSpace, List.takeWhile_append_dropWhile.symm,
    fun c hc => List.mem_takeWhile_imp hc, fun c hc => ?_⟩
  have hhead := List.head?_dropWhile_not isSpace s
  rw [Option.mem_def.mp hc] at hhead
  exact hhead

theorem skipSpace_mark {mark : Char} (h : Mark mark) (more : List Char) :
    skipSpace (mark :: more) = mark :: more := by
  obtain rfl | rfl := h <;> exact skipSpace_cons rfl more

/-- How a value ends that begins in a text without quotes: in front of the mark; not yet, because
there are only spaces; or with the end of all the text, if at all. -/
inductive ValueEnds (depth : Nat) (front : List Char) : Prop where
  | settles (h : Settles (value depth) front)
  | blank (h : Blank front)
  | swallows
      (h : ∀ t, Tail t → ∀ found rest, value depth (front ++ t) = .ok (found, rest) → rest = [])

/-- What begins with none of a space, a bracket and a brace is read as a scalar. -/
theorem value_other {c : Char} (hspace : isSpace c = false) (hlist : c ≠ '[') (hobject : c ≠ '{')
    (depth : Nat) (s : List Char) : value depth (c :: s) = scalar (c :: s) := by
  have hskip : skipSpace (c :: s) = c :: s := skipSpace_cons hspace s
  cases depth <;> simp [value, hskip, hlist, hobject]

theorem value_quote {s : List Char} (hs : Unescaped s) (depth : Nat) (rest : List Char) :
    value depth ('"' :: (s ++ '"' :: rest)) = .ok (.text (String.ofList s), rest) := by
  rw [value_other rfl (by decide) (by decide)]
  simp [scalar, text_unescaped hs, Except.map]

/-- No value begins with a backslash, however many spaces stand in front of it. -/
theorem value_escape {blank : List Char} (hblank : Blank blank) (depth : Nat) (more : List Char) :
    value depth (blank ++ '\\' :: more) = .error (faultAt .expectedValue ('\\' :: more)) := by
  have hspace : skipSpace ('\\' :: more) = '\\' :: more := skipSpace_cons rfl more
  rw [value_blank hblank]
  cases depth <;> simp only [value, hspace] <;> rfl

/-- Reads an item and the items behind it. -/
def itemThen {α : Type} (item : Reader α) (limit : Nat) (s : List Char) :
    Except Fault (List α × List Char) :=
  match item s with
  | .error fault => .error fault
  | .ok (value, rest) =>
    match items item limit false rest with
    | .error fault => .error fault
    | .ok (values, rest) => .ok (value :: values, rest)

/-- How the items of a list end that begin in a text without quotes: with a bracket in front of the
mark, with the last string of the list, or not at all. What is read then is the same however much
room there is from a bound on. -/
inductive ItemsEnd (read : Nat → List Char → Except Fault (List Json × List Char))
    (front : List Char) (bound : Nat) : Prop where
  | closes {values : List Json} {back : List Char} (htextless : ∀ value ∈ values, value.Textless)
      (hback : back <:+ front)
      (h : ∀ limit, bound ≤ limit → ∀ mark more, Mark mark →
        read limit (mark :: more) = .ok (values, back ++ mark :: more))
  | crosses {between : List Json} (htextless : ∀ value ∈ between, value.Textless)
      (hlast : ∀ limit, bound ≤ limit → ∀ s, Unescaped s →
        read limit ('"' :: (s ++ ['"', ']'])) = .ok (between ++ [.text (String.ofList s)], []))
      (hescape : ∀ limit, bound ≤ limit → ∀ more, ∃ fault, read limit ('\\' :: more) = .error fault)
  | breaks (h : ∀ limit, bound ≤ limit → ∀ t, Tail t → ∃ fault, read limit t = .error fault)

namespace ItemsEnd

variable {read other : Nat → List Char → Except Fault (List Json × List Char)}
  {front back : List Char} {bound otherBound : Nat}

/-- Items that are not read in front of any mark do not end. -/
theorem fails (h : ∀ limit, bound ≤ limit → ∀ mark more, Mark mark →
    ∃ fault, read limit (mark :: more) = .error fault) : ItemsEnd read front bound := by
  refine .breaks fun limit hlimit t ht => ?_
  obtain ⟨mark, more, hmark, rfl⟩ := ht.exists_mark
  exact h limit hlimit mark more hmark

/-- Reading may go on elsewhere, with another limit. -/
theorem of_eq (h : ItemsEnd other back otherBound) (hback : back <:+ front)
    (hread : ∀ limit, bound ≤ limit → ∃ inner, otherBound ≤ inner ∧ ∀ mark more, Mark mark →
      read limit (mark :: more) = other inner (mark :: more)) : ItemsEnd read front bound := by
  cases h with
  | closes htextless hrest hclosed =>
    refine .closes htextless (hrest.trans hback) fun limit hlimit mark more hmark => ?_
    obtain ⟨inner, hinner, heq⟩ := hread limit hlimit
    rw [heq mark more hmark, hclosed inner hinner mark more hmark]
  | crosses htextless hlast hescape =>
    refine .crosses htextless (fun limit hlimit s hs => ?_) fun limit hlimit more => ?_
    · obtain ⟨inner, hinner, heq⟩ := hread limit hlimit
      rw [heq _ _ (Or.inl rfl), hlast inner hinner s hs]
    · obtain ⟨inner, hinner, heq⟩ := hread limit hlimit
      rw [heq _ _ (Or.inr rfl)]
      exact hescape inner hinner more
  | breaks hbroken =>
    refine .breaks fun limit hlimit t ht => ?_
    obtain ⟨inner, hinner, heq⟩ := hread limit hlimit
    obtain ⟨fault, herror⟩ := hbroken inner hinner t ht
    obtain ⟨mark, more, hmark, rfl⟩ := ht.exists_mark
    exact ⟨fault, (heq mark more hmark).trans herror⟩

/-- An item in front of others does not change how they end. -/
theorem cons {value : Json} (htextless : value.Textless) (h : ItemsEnd other back otherBound)
    (hback : back <:+ front) (hbound : otherBound ≤ bound)
    (hread : ∀ limit mark more, Mark mark → read limit (mark :: more) =
      (other limit (mark :: more)).map fun found => (value :: found.1, found.2)) :
    ItemsEnd read front bound := by
  cases h with
  | closes hall hrest hclosed =>
    refine .closes (List.forall_mem_cons.mpr ⟨htextless, hall⟩) (hrest.trans hback)
      fun limit hlimit mark more hmark => ?_
    rw [hread limit mark more hmark, hclosed limit (hbound.trans hlimit) mark more hmark]
    rfl
  | crosses hall hlast hescape =>
    refine .crosses (List.forall_mem_cons.mpr ⟨htextless, hall⟩)
      (fun limit hlimit s hs => ?_) fun limit hlimit more => ?_
    · rw [hread limit _ _ (Or.inl rfl), hlast limit (hbound.trans hlimit) s hs]
      rfl
    · obtain ⟨fault, herror⟩ := hescape limit (hbound.trans hlimit) more
      exact ⟨fault, by rw [hread limit _ _ (Or.inr rfl), herror]; rfl⟩
  | breaks hbroken =>
    refine .breaks fun limit hlimit t ht => ?_
    obtain ⟨fault, herror⟩ := hbroken limit (hbound.trans hlimit) t ht
    obtain ⟨mark, more, hmark, rfl⟩ := ht.exists_mark
    exact ⟨fault, by rw [hread limit mark more hmark, herror]; rfl⟩

end ItemsEnd

theorem items_nil (item : Reader Json) (limit : Nat) :
    items item limit false [] = .error (faultAt .endInList []) := by
  cases limit <;> rfl

theorem items_close (item : Reader Json) (limit : Nat) :
    items item (limit + 1) false [']'] = .ok ([], []) := rfl

/-- If an item ends and so do the items behind it, they end together. -/
theorem itemThen_ends {depth : Nat} {start : List Char} (hvalue : ValueEnds depth start)
    (hitems : ∀ back, back <:+ start → ItemsEnd
      (fun limit t => items (value depth) limit false (back ++ t)) back (back.length + 1)) :
    ItemsEnd (fun limit t => itemThen (value depth) limit (start ++ t)) start
      (start.length + 1) := by
  cases hvalue with
  | settles hsettles =>
    cases hsettles with
    | @read found back htextless hback hread =>
      refine .cons htextless (hitems back hback) hback (Nat.succ_le_succ hback.length_le) ?_
      intro limit mark more hmark
      simp only [itemThen, hread mark more hmark]
      cases items (value depth) limit false (back ++ mark :: more) <;> rfl
    | fails hfails =>
      refine .fails fun limit _ mark more hmark => ?_
      obtain ⟨fault, herror⟩ := hfails mark more hmark
      exact ⟨fault, by simp only [itemThen, herror]⟩
  | blank hblank =>
    refine .crosses (List.forall_mem_nil _) (fun limit hlimit s hs => ?_) fun limit _ more => ?_
    · obtain ⟨limit, rfl⟩ := Nat.exists_eq_add_one.mpr (Nat.lt_of_lt_of_le (Nat.succ_pos _) hlimit)
      simp only [itemThen, value_blank hblank, value_quote hs, items_close, List.nil_append]
    · exact ⟨_, by simp only [itemThen, value_escape hblank]; rfl⟩
  | swallows hlost =>
    refine .breaks fun limit _ t ht => ?_
    cases hread : value depth (start ++ t) with
    | error fault => exact ⟨fault, by simp only [itemThen, hread]⟩
    | ok read =>
      obtain ⟨found, rest⟩ := read
      obtain rfl := hlost t ht found rest hread
      exact ⟨_, by simp only [itemThen, hread, items_nil]; rfl⟩

/-- The first item starts at the first character that is not a space, unless that closes the
list. -/
theorem nextItem_first {s : List Char} {c : Char} (hspace : isSpace c = false) (hclose : c ≠ ']') :
    nextItem true (c :: s) = .ok (some (c :: s)) := by
  simp only [nextItem, skipSpace_cons hspace, if_true]

/-- A later item starts behind a comma. -/
theorem nextItem_comma {s : List Char} {c : Char} (hspace : isSpace c = false) (hclose : c ≠ ']')
    {blank : List Char} (hblank : Blank blank) :
    nextItem false (',' :: (blank ++ c :: s)) = .ok (some (c :: s)) := by
  have hcomma : skipSpace (',' :: (blank ++ c :: s)) = ',' :: (blank ++ c :: s) :=
    skipSpace_cons rfl _
  simp [nextItem, hcomma, skipSpace_append hblank, hspace, hclose]

/-- Spaces do not matter to where the next item starts. -/
theorem nextItem_blank {blank : List Char} (hblank : Blank blank) (first : Bool) (s : List Char) :
    nextItem first (blank ++ s) = nextItem first s := by
  simp only [nextItem, skipSpace_append hblank]

/-- Behind an item stands a comma or the end of the list, or else nothing can be read. -/
theorem nextItem_other {c : Char} (hspace : isSpace c = false) (hclose : c ≠ ']') (hcomma : c ≠ ',')
    (s : List Char) :
    nextItem false (c :: s) = .error (faultAt .expectedCommaInList (c :: s)) := by
  simp [nextItem, hspace, hcomma]

theorem closeList_blank {blank : List Char} (hblank : Blank blank) (s : List Char) :
    closeList (blank ++ s) = closeList s := by
  simp only [closeList, skipSpace_append hblank]

/-- What the front of a text says about the next item of a list: there is none because the list is
closed, it starts in the front or at the mark, or there is a fault. -/
inductive NextItem (first : Bool) (front : List Char) : Prop where
  | closes {back : List Char} (hback : back <:+ front)
      (h : ∀ mark more, Mark mark → nextItem first (front ++ mark :: more) = .ok none ∧
        closeList (front ++ mark :: more) = .ok (back ++ mark :: more))
  | starts {start : List Char} (hstart : start <:+ front)
      (hshort : first = false → start.length < front.length)
      (h : ∀ mark more, Mark mark →
        nextItem first (front ++ mark :: more) = .ok (some (start ++ mark :: more)))
  | fails (h : ∀ mark more, Mark mark →
      ∃ fault, nextItem first (front ++ mark :: more) = .error fault)

namespace NextItem

variable {blank : List Char} {first : Bool}

/-- Spaces in front do not change where the next item starts. -/
theorem behind (hblank : Blank blank) {core : List Char} (h : NextItem first core) :
    NextItem first (blank ++ core) := by
  have hcore : core <:+ blank ++ core := List.suffix_append blank core
  cases h with
  | closes hback hclosed =>
    refine .closes (hback.trans hcore) fun mark more hmark => ?_
    rw [List.append_assoc, nextItem_blank hblank, closeList_blank hblank]
    exact hclosed mark more hmark
  | starts hstart hshort hnext =>
    refine .starts (hstart.trans hcore)
      (fun hfirst => Nat.lt_of_lt_of_le (hshort hfirst) hcore.length_le) fun mark more hmark => ?_
    rw [List.append_assoc, nextItem_blank hblank, hnext mark more hmark]
  | fails hfails =>
    refine .fails fun mark more hmark => ?_
    rw [List.append_assoc, nextItem_blank hblank]
    exact hfails mark more hmark

theorem comma (rest : List Char) : NextItem false (',' :: rest) := by
  obtain ⟨blank, core, rfl, hblank, hcore⟩ := exists_core rest
  have hstart : core <:+ ',' :: (blank ++ core) :=
    (List.suffix_append blank core).trans (List.suffix_cons ',' _)
  have hshort : core.length < (',' :: (blank ++ core)).length := by
    simp only [List.length_cons, List.length_append]
    omega
  rcases core with _ | ⟨c, core⟩
  · refine .starts hstart (fun _ => hshort) fun mark more hmark => ?_
    rw [List.append_nil]
    exact nextItem_comma hmark.isSpace hmark.ne_bracket hblank
  by_cases hclose : c = ']'
  · subst hclose
    refine .fails fun mark more _ => ⟨faultAt .trailingComma (']' :: (core ++ mark :: more)), ?_⟩
    have hcomma : skipSpace (',' :: (blank ++ ']' :: (core ++ mark :: more))) =
        ',' :: (blank ++ ']' :: (core ++ mark :: more)) := skipSpace_cons rfl _
    have hbracket : skipSpace (']' :: (core ++ mark :: more)) = ']' :: (core ++ mark :: more) :=
      skipSpace_cons rfl _
    simp [nextItem, hcomma, skipSpace_append hblank, hbracket]
  · refine .starts hstart (fun _ => hshort) fun mark more _ => ?_
    rw [List.cons_append, List.append_assoc]
    exact nextItem_comma (hcore c rfl) hclose hblank

end NextItem

/-- Where the next item starts, if one is left. -/
theorem nextItem_front (first : Bool) (front : List Char) : NextItem first front := by
  obtain ⟨blank, core, rfl, hblank, hcore⟩ := exists_core front
  refine .behind hblank ?_
  rcases core with _ | ⟨c, rest⟩
  · cases first with
    | true =>
      exact .starts List.nil_suffix nofun fun mark more hmark =>
        nextItem_first hmark.isSpace hmark.ne_bracket
    | false =>
      refine .fails fun mark more hmark =>
        ⟨_, nextItem_other hmark.isSpace hmark.ne_bracket ?_ more⟩
      obtain rfl | rfl := hmark <;> decide
  have hspace : isSpace c = false := hcore c rfl
  by_cases hclose : c = ']'
  · subst hclose
    refine .closes (List.suffix_cons _ rest) fun mark more _ => ?_
    simp only [List.cons_append, nextItem, closeList, skipSpace_cons hspace, and_self]
  cases first with
  | true =>
    exact .starts (List.suffix_refl _) nofun fun mark more _ => nextItem_first hspace hclose
  | false =>
    by_cases hcomma : c = ','
    · subst hcomma
      exact .comma rest
    · exact .fails fun mark more _ => ⟨_, nextItem_other hspace hclose hcomma _⟩

/-- Where an item starts, it is read, and then the items behind it. -/
theorem items_succ {α : Type} {item : Reader α} {limit : Nat} {first : Bool} {s start : List Char}
    (h : nextItem first s = .ok (some start)) :
    items item (limit + 1) first s = itemThen item limit start := by
  simp only [items, h]
  rfl

variable {depth : Nat}

/-- Where an item starts, the items end as that one and those behind it do. -/
theorem items_end (first : Bool) (front : List Char)
    (h : ∀ start, start <:+ front → (first = false → start.length < front.length) →
      ItemsEnd (fun limit t => itemThen (value depth) limit (start ++ t)) start
        (start.length + 1)) :
    ItemsEnd (fun limit t => items (value depth) limit first (front ++ t)) front
      (front.length + if first then 2 else 1) := by
  cases nextItem_front first front with
  | closes hback hclosed =>
    refine .closes (List.forall_mem_nil _) hback fun limit hlimit mark more hmark => ?_
    obtain ⟨limit, rfl⟩ := Nat.exists_eq_add_one.mpr (show 0 < limit by split at hlimit <;> omega)
    obtain ⟨hnone, hclose⟩ := hclosed mark more hmark
    simp only [items, hnone, hclose]
  | @starts start hstart hshort hnext =>
    refine .of_eq (h start hstart hshort) hstart fun limit hlimit => ?_
    have hlength := hstart.length_le
    have hroom : start.length + 2 ≤ limit := by
      cases first with
      | true =>
        rw [if_pos rfl] at hlimit
        omega
      | false =>
        have hless := hshort rfl
        rw [if_neg Bool.false_ne_true] at hlimit
        omega
    obtain ⟨limit, rfl⟩ := Nat.exists_eq_add_one.mpr (show 0 < limit by omega)
    exact ⟨limit, Nat.le_of_succ_le_succ hroom, fun mark more hmark =>
      items_succ (hnext mark more hmark)⟩
  | fails hfails =>
    refine .fails fun limit _ mark more hmark => ?_
    obtain ⟨fault, herror⟩ := hfails mark more hmark
    cases limit with
    | zero => exact ⟨_, rfl⟩
    | succ limit => exact ⟨fault, by simp only [items, herror]⟩

section Items

variable (hvalue : ∀ front, '"' ∉ front → ValueEnds depth front)

include hvalue

/-- How the items behind another one end, in a text without quotes. -/
theorem later_items_end (front : List Char) (hquote : '"' ∉ front) :
    ItemsEnd (fun limit t => items (value depth) limit false (front ++ t)) front
      (front.length + 1) := by
  induction hlength : front.length using Nat.strongRecOn generalizing front with
  | _ length ih =>
    subst hlength
    refine items_end false front fun start hstart hshort => ?_
    have hstartQuote := fun hmem => hquote (hstart.mem hmem)
    refine itemThen_ends (hvalue start hstartQuote) fun back hback => ?_
    exact ih back.length (Nat.lt_of_le_of_lt hback.length_le (hshort rfl)) back
      (fun hmem => hstartQuote (hback.mem hmem)) rfl

/-- How the items of a list end that opens in a text without quotes. -/
theorem first_items_end (front : List Char) (hquote : '"' ∉ front) :
    ItemsEnd (fun limit t => items (value depth) limit true (front ++ t)) front
      (front.length + 2) := by
  refine items_end true front fun start hstart _ => ?_
  have hstartQuote := fun hmem => hquote (hstart.mem hmem)
  exact itemThen_ends (hvalue start hstartQuote) fun back hback =>
    later_items_end hvalue back fun hmem => hstartQuote (hback.mem hmem)

end Items

theorem nextKey_blank {blank : List Char} (hblank : Blank blank) (first : Bool) (s : List Char) :
    nextKey first (blank ++ s) = nextKey first s := by
  simp only [nextKey, skipSpace_append hblank]

/-- An object that begins in a text without quotes is empty, or it has no end: the string behind
that text would be the name of a member, and no colon is behind the name. -/
theorem objectOf_end (reader : Reader Json) {front : List Char} (hquote : '"' ∉ front) :
    (∃ back, back <:+ front ∧ ∀ mark more, Mark mark →
      objectOf reader (front ++ mark :: more) = .ok ([], back ++ mark :: more)) ∨
    ∀ t, Tail t → ∃ fault, objectOf reader (front ++ t) = .error fault := by
  obtain ⟨blank, core, rfl, hblank, hcore⟩ := exists_core front
  simp only [List.append_assoc, objectOf, members, nextKey_blank hblank]
  rcases core with _ | ⟨c, rest⟩
  · refine Or.inr fun t ht => ?_
    cases ht with
    | @last s hs =>
      have hkey : nextKey true ('"' :: (s ++ ['"', ']'])) = .ok (some (s ++ ['"', ']'])) := rfl
      refine ⟨faultAt .expectedColon [']'], ?_⟩
      simp only [List.nil_append, hkey, text_unescaped hs]
      rfl
    | escape more => exact ⟨faultAt .expectedKey ('\\' :: more), rfl⟩
  have hspace : isSpace c = false := hcore c rfl
  by_cases hclose : c = '}'
  · subst hclose
    refine Or.inl ⟨rest, (List.suffix_cons _ rest).trans (List.suffix_append blank _),
      fun mark more _ => ?_⟩
    have hkey : nextKey true ('}' :: (rest ++ mark :: more)) = .ok none := rfl
    simp only [List.cons_append, hkey, closeObject, skipSpace_append hblank, skipSpace_cons hspace]
  · have hc : c ≠ '"' := by
      rintro rfl
      exact hquote (by simp)
    refine Or.inr fun t _ => ⟨faultAt .expectedKey (c :: (rest ++ t)), ?_⟩
    have hkey : nextKey true (c :: (rest ++ t)) =
        .error (faultAt .expectedKey (c :: (rest ++ t))) := by
      simp only [nextKey, skipSpace_cons hspace, if_true, if_neg hc]
    simp only [List.cons_append, hkey]

/-- A value that is not read, whatever stands behind the text, does not end. -/
theorem ValueEnds.fails {front : List Char}
    (h : ∀ t, Tail t → ∃ fault, value depth (front ++ t) = .error fault) :
    ValueEnds depth front := by
  refine .swallows fun t ht found rest hread => ?_
  obtain ⟨fault, herror⟩ := h t ht
  cases herror.symm.trans hread

theorem ValueEnds.behind {blank core : List Char} (hblank : Blank blank)
    (h : ValueEnds depth core) : ValueEnds depth (blank ++ core) := by
  cases h with
  | settles hsettles =>
    refine .settles (.of_eq hsettles (List.suffix_append blank core) fun mark more _ => ?_)
    rw [List.append_assoc, value_blank hblank]
  | blank hcore => exact .blank (List.forall_mem_append.mpr ⟨hblank, hcore⟩)
  | swallows hlost =>
    refine .swallows fun t ht found rest hread => hlost t ht found rest ?_
    rwa [List.append_assoc, value_blank hblank] at hread

/-- A list ends as its items do. -/
theorem value_list_ends {front : List Char}
    (h : ItemsEnd (fun limit t => items (value depth) limit true (front ++ t)) front
      (front.length + 2)) : ValueEnds (depth + 1) ('[' :: front) := by
  have hlimit : ∀ mark more, front.length + 2 ≤ (front ++ mark :: more).length + 1 := by
    intro mark more
    rw [List.length_append, List.length_cons]
    omega
  cases h with
  | closes htextless hback hclosed =>
    refine .settles (.read (.list htextless) (hback.trans (List.suffix_cons _ front)) ?_)
    intro mark more hmark
    have hread := hclosed _ (hlimit mark more) mark more hmark
    simp only [List.cons_append, value_list, listOf, hread]
    rfl
  | crosses _ hlast hescape =>
    refine .swallows fun t ht found rest hread => ?_
    rw [List.cons_append, value_list, listOf] at hread
    cases ht with
    | @last s hs =>
      have hlist := hlast _ (hlimit '"' (s ++ ['"', ']'])) s hs
      simp only [hlist] at hread
      cases hread
      rfl
    | escape more =>
      obtain ⟨fault, herror⟩ := hescape _ (hlimit '\\' more) more
      simp only [herror] at hread
      cases hread
  | breaks hbroken =>
    refine .fails fun t ht => ?_
    obtain ⟨mark, more, -, rfl⟩ := id ht.exists_mark
    obtain ⟨fault, herror⟩ := hbroken _ (hlimit mark more) _ ht
    exact ⟨fault, by simp only [List.cons_append, value_list, listOf, herror]; rfl⟩

/-- How an object ends that opens in a text without quotes. -/
theorem value_object_ends {front : List Char} (hquote : '"' ∉ front) :
    ValueEnds (depth + 1) ('{' :: front) := by
  obtain ⟨back, hback, hempty⟩ | hfails := objectOf_end (value depth) hquote
  · refine .settles (.read .empty (hback.trans (List.suffix_cons _ front)) ?_)
    intro mark more hmark
    rw [List.cons_append, value_object, hempty mark more hmark]
    rfl
  · refine .fails fun t ht => ?_
    obtain ⟨fault, herror⟩ := hfails t ht
    exact ⟨fault, by rw [List.cons_append, value_object, herror]; rfl⟩

/-- How a value ends follows from how lists and objects end. -/
theorem value_ends_of {front : List Char} (hquote : '"' ∉ front)
    (hlist : ∀ rest, '"' ∉ rest → ValueEnds depth ('[' :: rest))
    (hobject : ∀ rest, '"' ∉ rest → ValueEnds depth ('{' :: rest)) : ValueEnds depth front := by
  obtain ⟨blank, core, rfl, hblank, hcore⟩ := exists_core front
  rw [List.mem_append, not_or] at hquote
  rcases core with _ | ⟨c, rest⟩
  · exact .blank (by rwa [List.append_nil])
  refine .behind hblank ?_
  obtain ⟨hc, hrest⟩ := not_or.mp (mt List.mem_cons.mpr hquote.2)
  by_cases hopen : c = '['
  · subst hopen
    exact hlist rest hrest
  by_cases hbrace : c = '{'
  · subst hbrace
    exact hobject rest hrest
  · exact .settles (.of_eq (scalar_settles (Ne.symm hc) rest) (List.suffix_refl _)
      fun mark more _ => value_other (hcore c rfl) hopen hbrace depth _)

/-- How a value ends that begins in a text without quotes. Whatever is begun there and not ended
takes the string behind it for its own, and has no end. -/
theorem value_ends (depth : Nat) (front : List Char) (hquote : '"' ∉ front) :
    ValueEnds depth front := by
  induction depth generalizing front with
  | zero =>
    refine value_ends_of hquote (fun rest _ => .fails fun t _ => ?_)
      fun rest _ => .fails fun t _ => ?_
    · exact ⟨faultAt .nestedTooDeep ('[' :: (rest ++ t)), rfl⟩
    · exact ⟨faultAt .nestedTooDeep ('{' :: (rest ++ t)), rfl⟩
  | succ depth ih =>
    exact value_ends_of hquote (fun rest hrest => value_list_ends (first_items_end ih rest hrest))
      fun rest hrest => value_object_ends hrest

/-- The first string of a list is read, and then the items behind it. -/
theorem value_first {p : List Char} (hp : Unescaped p) (depth : Nat) (s : List Char) :
    value (depth + 1) ('[' :: '"' :: (p ++ '"' :: s)) =
      (items (value depth) (p.length + s.length + 2) false s).map fun read =>
        (.list (.text (String.ofList p) :: read.1), read.2) := by
  have hstart : nextItem true ('"' :: (p ++ '"' :: s)) = .ok (some ('"' :: (p ++ '"' :: s))) := rfl
  have hlength : ('"' :: (p ++ '"' :: s)).length + 1 = (p.length + s.length + 2) + 1 := by
    simp only [List.length_cons, List.length_append]
    omega
  rw [value_list, listOf, hlength, items_succ hstart]
  simp only [itemThen, value_quote hp]
  cases items (value depth) (p.length + s.length + 2) false s <;> rfl

end Reader

section Parse

variable {s : List Char} {value : Json}

theorem parse_of_error {fault : Fault} (h : Reader.value depthLimit s = .error fault) :
    ∃ error, parse (String.ofList s) = .error error := by
  rw [parse, Reader.readAll, String.toList_ofList, h]
  exact ⟨_, rfl⟩

theorem parse_of_ok (h : Reader.value depthLimit s = .ok (value, [])) :
    parse (String.ofList s) = .ok value := by
  rw [parse, Reader.readAll, String.toList_ofList, h]
  rfl

/-- Nothing but spaces may stand behind a value. -/
theorem parse_of_mark {back more : List Char} {mark : Char} (hmark : Mark mark)
    (h : Reader.value depthLimit s = .ok (value, back ++ mark :: more)) :
    ∃ error, parse (String.ofList s) = .error error := by
  obtain ⟨c, rest, hskip⟩ : ∃ c rest, Reader.skipSpace (back ++ mark :: more) = c :: rest := by
    obtain ⟨blank, core, rfl, hblank, hcore⟩ := Reader.exists_core back
    rw [List.append_assoc, Reader.skipSpace_append hblank]
    rcases core with _ | ⟨c, core⟩
    · exact ⟨mark, more, Reader.skipSpace_mark hmark more⟩
    · exact ⟨c, core ++ mark :: more, Reader.skipSpace_cons (hcore c rfl) _⟩
  rw [parse, Reader.readAll, String.toList_ofList, h]
  simp only [bind, Except.bind, hskip]
  exact ⟨_, rfl⟩

end Parse

/-- Two strings of a list, with a text between their quotes. -/
def flanked (p text s : List Char) : List Char :=
  '[' :: '"' :: (p ++ '"' :: (text ++ '"' :: (s ++ ['"', ']'])))

/-- The text between the strings of a list is read on its own: what the strings are does not change
which items it is read as, nor whether there are any. -/
theorem parse_flanked {text : List Char} (hquote : '"' ∉ text) :
    (∃ items : List Json, (∀ item ∈ items, item.Textless) ∧
      ∀ p s, Unescaped p → Unescaped s → parse (String.ofList (flanked p text s)) =
        .ok (.list (.text (String.ofList p) :: (items ++ [.text (String.ofList s)])))) ∨
    ∀ p s, Unescaped p → Unescaped s →
      ∃ error, parse (String.ofList (flanked p text s)) = .error error := by
  have hlimit : ∀ p t : List Char, text.length + 1 ≤ p.length + (text ++ t).length + 2 := by
    intro p t
    rw [List.length_append]
    omega
  cases Reader.later_items_end (Reader.value_ends 126) text hquote with
  | @closes values back _ _ hclosed =>
    refine Or.inr fun p s hp _ => ?_
    have hitems := hclosed _ (hlimit p ('"' :: (s ++ ['"', ']']))) '"' (s ++ ['"', ']'])
      (Or.inl rfl)
    exact parse_of_mark (Or.inl rfl)
      ((Reader.value_first hp 126 _).trans (congrArg (Except.map _) hitems))
  | @crosses items htextless hlast _ =>
    refine Or.inl ⟨items, htextless, fun p s hp hs => parse_of_ok ?_⟩
    have hitems := hlast _ (hlimit p ('"' :: (s ++ ['"', ']']))) s hs
    exact (Reader.value_first hp 126 _).trans (congrArg (Except.map _) hitems)
  | breaks hbroken =>
    refine Or.inr fun p s hp hs => ?_
    obtain ⟨fault, hitems⟩ := hbroken _ (hlimit p ('"' :: (s ++ ['"', ']']))) _ (.last hs)
    exact parse_of_error ((Reader.value_first hp 126 _).trans (congrArg (Except.map _) hitems))

/-- An escape between the strings of a list is an error. -/
theorem parse_escape {front : List Char} (hquote : '"' ∉ front) {p : List Char}
    (hp : Unescaped p) (more : List Char) :
    ∃ error, parse (String.ofList ('[' :: '"' :: (p ++ '"' :: (front ++ '\\' :: more)))) =
      .error error := by
  have hlimit : front.length + 1 ≤ p.length + (front ++ '\\' :: more).length + 2 := by
    rw [List.length_append]
    omega
  cases Reader.later_items_end (Reader.value_ends 126) front hquote with
  | closes _ _ hclosed =>
    have hitems := hclosed _ hlimit '\\' more (Or.inr rfl)
    exact parse_of_mark (Or.inr rfl)
      ((Reader.value_first hp 126 _).trans (congrArg (Except.map _) hitems))
  | crosses _ _ hescape =>
    obtain ⟨fault, hitems⟩ := hescape _ hlimit more
    exact parse_of_error ((Reader.value_first hp 126 _).trans (congrArg (Except.map _) hitems))
  | breaks hbroken =>
    obtain ⟨fault, hitems⟩ := hbroken _ hlimit _ (.escape more)
    exact parse_of_error ((Reader.value_first hp 126 _).trans (congrArg (Except.map _) hitems))

theorem ofList_flanked (v : String) :
    String.ofList (flanked [] v.toList []) = "[\"\"" ++ v ++ "\"\"]" := by
  rw [← String.toList_inj]
  simp [flanked]

/-- A text that is written between two strings of a list gives a list that starts with the one and
ends with the other, or nothing. What is between them has no texts, and it is what the text stands
for between empty strings. -/
theorem parse_written_flanked {p s : String} (hp : Unescaped p.toList) (hs : Unescaped s.toList)
    (v : String) (value : Json) :
    parse (String.ofList (flanked p.toList (v.toList.flatMap writeChar) s.toList)) = .ok value ↔
      Unescaped v.toList ∧ ∃ items : List Json, (∀ item ∈ items, item.Textless) ∧
        parse ("[\"\"" ++ v ++ "\"\"]") = .ok (.list (.text "" :: (items ++ [.text ""]))) ∧
        value = .list (.text p :: (items ++ [.text s])) := by
  have hnil : Unescaped [] := List.forall_mem_nil _
  obtain ⟨hv, hwritten⟩ | ⟨hv, front, more, hquote, hwritten⟩ := unescaped_or_escape v.toList
  · rw [hwritten, ← ofList_flanked]
    obtain ⟨items, htextless, hread⟩ | hfails := parse_flanked hv.notMem
    · rw [hread _ _ hp hs, hread _ _ hnil hnil]
      simp only [String.ofList_toList, Except.ok.injEq]
      constructor
      · rintro rfl
        exact ⟨hv, items, htextless, rfl, rfl⟩
      · rintro ⟨-, others, -, hsame, rfl⟩
        simp only [list.injEq, List.cons.injEq, List.append_cancel_right_eq, true_and] at hsame
        rw [hsame]
    · obtain ⟨error, herror⟩ := hfails _ _ hp hs
      obtain ⟨other, hother⟩ := hfails _ _ hnil hnil
      simp [herror, hother]
  · have hmore : flanked p.toList (front ++ '\\' :: more) s.toList = '[' :: '"' :: (p.toList ++
        '"' :: (front ++ '\\' :: (more ++ '"' :: (s.toList ++ ['"', ']'])))) := by simp [flanked]
    obtain ⟨error, herror⟩ := parse_escape hquote hp (more ++ '"' :: (s.toList ++ ['"', ']']))
    rw [hwritten, hmore, herror]
    simp [hv]

end Workflow.Json
