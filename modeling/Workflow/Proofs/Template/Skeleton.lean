import Workflow.Proofs.Json.Written
import Workflow.Proofs.Template.Decomposition

namespace Workflow

namespace Template

/-- A JSON value in which expressions may stand in the place of values. -/
inductive Skeleton where
  | null
  | bool (b : Bool)
  | int (n : Int)
  | text (s : String)
  | list (items : List Skeleton)
  | object (fields : List (String × Skeleton))
  | hole (expression : List Char)

namespace Skeleton

mutual

/-- The value with what the paths lead to in its holes. -/
def fill (look : List Char → Json) : Skeleton → Json
  | .null => .null
  | .bool b => .bool b
  | .int n => .int n
  | .text s => .text s
  | .list items => .list (fillItems look items)
  | .object fields => .object (fillFields look fields)
  | .hole expression => look (Text.trim expression)
  termination_by structural skeleton => skeleton

/-- Fills the items of a list. -/
def fillItems (look : List Char → Json) : List Skeleton → List Json
  | [] => []
  | item :: rest => item.fill look :: fillItems look rest
  termination_by structural items => items

/-- Fills the members of an object. -/
def fillFields (look : List Char → Json) : List (String × Skeleton) → List (String × Json)
  | [] => []
  | (key, value) :: rest => (key, value.fill look) :: fillFields look rest
  termination_by structural fields => fields

end

mutual

/-- The expressions in the holes. -/
def holes : Skeleton → List (List Char)
  | .list items => holesItems items
  | .object fields => holesFields fields
  | .hole expression => [expression]
  | _ => []
  termination_by structural skeleton => skeleton

/-- The expressions in the items of a list. -/
def holesItems : List Skeleton → List (List Char)
  | [] => []
  | item :: rest => item.holes ++ holesItems rest
  termination_by structural items => items

/-- The expressions in the members of an object. -/
def holesFields : List (String × Skeleton) → List (List Char)
  | [] => []
  | (_, value) :: rest => value.holes ++ holesFields rest
  termination_by structural fields => fields

end

variable {look : List Char → Json}

/-- Items are filled one by one. -/
theorem fillItems_eq (items : List Skeleton) : fillItems look items = items.map (fill look) := by
  induction items with
  | nil => rfl
  | cons item rest ih => rw [fillItems, ih, List.map_cons]

/-- Members keep their names and are filled one by one. -/
theorem fillFields_eq (fields : List (String × Skeleton)) :
    fillFields look fields = fields.map fun field => (field.1, field.2.fill look) := by
  induction fields with
  | nil => rfl
  | cons field rest ih => rw [fillFields, ih, List.map_cons]

theorem mem_holesItems {item : Skeleton} {items : List Skeleton} (h : item ∈ items)
    {hole : List Char} (hhole : hole ∈ item.holes) : hole ∈ holesItems items := by
  induction items with
  | nil => cases h
  | cons first rest ih =>
    rw [holesItems, List.mem_append]
    obtain rfl | hlater := List.mem_cons.mp h
    · exact Or.inl hhole
    · exact Or.inr (ih hlater)

theorem mem_holesFields {field : String × Skeleton} {fields : List (String × Skeleton)}
    (h : field ∈ fields) {hole : List Char} (hhole : hole ∈ field.2.holes) :
    hole ∈ holesFields fields := by
  induction fields with
  | nil => cases h
  | cons first rest ih =>
    rw [holesFields, List.mem_append]
    obtain rfl | hlater := List.mem_cons.mp h
    · exact Or.inl hhole
    · exact Or.inr (ih hlater)

/-- The characters are a text of the skeleton. Whole numbers fit in 64 bits, the names of the
members of an object differ, and neither a name nor a string opens an expression. -/
inductive Spelled : Skeleton → List Char → Prop where
  | null : Spelled .null ['n', 'u', 'l', 'l']
  | bool (b : Bool) : Spelled (.bool b) (Json.write (.bool b))
  | int {n : Int} (hfits : Json.Reader.Fits n) : Spelled (.int n) (Json.writeInt n)
  | text {s : String} {written : List Char} (hquoted : Json.Quoted s written)
      (hopen : Unopened s.toList) : Spelled (.text s) written
  | list {items : List (Json.Spaced × Skeleton)} {blank : List Char} (hblank : Json.Blank blank)
      (hitems : ∀ item ∈ items, Spelled item.2 item.1.text) :
      Spelled (.list (items.map Prod.snd))
        ('[' :: (blank ++ Json.listed true (items.map Prod.fst)))
  | object {fields : List ((Json.Spaced × Json.Spaced) × (String × Skeleton))}
      {blank : List Char} (hblank : Json.Blank blank)
      (hkeys : ((fields.map Prod.snd).map Prod.fst).Nodup)
      (hnames : ∀ field ∈ fields,
        Json.Quoted field.2.1 field.1.1.text ∧ Unopened field.2.1.toList)
      (hvalues : ∀ field ∈ fields, Spelled field.2.2 field.1.2.text) :
      Spelled (.object (fields.map Prod.snd))
        ('{' :: (blank ++ Json.membered true (fields.map Prod.fst)))
  | hole {expression : List Char} (hclose : '}' ∉ expression) :
      Spelled (.hole expression) ('@' :: '{' :: (expression ++ ['}']))

end Skeleton

/-- The text of a JSON template with the written forms of values in the place of expressions. -/
def filling (look : List Char → Json) (s : List Char) : List Char :=
  (parts s).flatMap (Part.fill true look)

section Filling

variable {look : List Char → Json}

@[simp] theorem filling_nil : filling look [] = [] := by
  rw [filling, parts_nil, List.flatMap_nil]

/-- A character that begins no opening is cut off together with what follows. -/
theorem cutOpening_cons {c : Char} {rest : List Char} (h : ¬ (c = '@' ∧ rest.head? = some '{')) :
    cutOpening (c :: rest) = (cutOpening rest).map fun cut => (c :: cut.1, cut.2) := by
  cases rest with
  | nil => rfl
  | cons d rest =>
    rw [cutOpening, if_neg]
    simpa using h

/-- A character that opens no expression stays in front. -/
theorem filling_cons {c : Char} {rest : List Char} (h : ¬ (c = '@' ∧ rest.head? = some '{')) :
    filling look (c :: rest) = c :: filling look rest := by
  have hcut := cutOpening_cons h
  cases hopen : cutOpening rest with
  | none =>
    rw [hopen, Option.map_none] at hcut
    rw [filling, filling, parts_of_unopened hcut, parts_of_unopened hopen,
      Decomposition.flatMap_fill_textPart, Decomposition.flatMap_fill_textPart]
  | some cut =>
    obtain ⟨front, opened⟩ := cut
    rw [hopen, Option.map_some] at hcut
    cases hclose : cutClosing opened with
    | none =>
      have hnone := notMem_of_cutClosing_eq_none hclose
      rw [filling, filling, parts_of_unclosed hcut hnone, parts_of_unclosed hopen hnone,
        Decomposition.flatMap_fill_textPart, Decomposition.flatMap_fill_textPart]
    | some cut =>
      obtain ⟨path, behind⟩ := cut
      rw [filling, filling, parts_of_cut hcut hclose, parts_of_cut hopen hclose,
        List.flatMap_append, List.flatMap_append, Decomposition.flatMap_fill_textPart,
        Decomposition.flatMap_fill_textPart, List.cons_append]

/-- An expression gives place to the written form of its value. -/
theorem filling_expression {expression : List Char} (h : '}' ∉ expression) (rest : List Char) :
    filling look ('@' :: '{' :: (expression ++ '}' :: rest)) =
      splice true (look (Text.trim expression)) ++ filling look rest := by
  have hopen : cutOpening ('@' :: '{' :: (expression ++ '}' :: rest)) =
      some ([], expression ++ '}' :: rest) := rfl
  rw [filling, parts_of_cut hopen (cutClosing_append h rest)]
  rfl

/-- The text is all text, whatever stands behind it. -/
def Verbatim (s : List Char) : Prop :=
  ∀ look rest, filling look (s ++ rest) = s ++ filling look rest

namespace Verbatim

theorem nil : Verbatim [] := fun _ _ => rfl

theorem append {s t : List Char} (hs : Verbatim s) (ht : Verbatim t) : Verbatim (s ++ t) := by
  intro look rest
  rw [List.append_assoc, hs, ht, List.append_assoc]

theorem cons {c : Char} {s : List Char} (hc : c ≠ '@') (hs : Verbatim s) : Verbatim (c :: s) := by
  intro look rest
  rw [List.cons_append, filling_cons (fun h => hc h.1), hs, List.cons_append]

theorem of_notMem {s : List Char} (h : '@' ∉ s) : Verbatim s := by
  induction s with
  | nil => exact .nil
  | cons c s ih =>
    rw [List.mem_cons, not_or] at h
    exact .cons (Ne.symm h.1) (ih h.2)

theorem blank {s : List Char} (h : Json.Blank s) : Verbatim s :=
  .of_notMem fun hmem => by cases h _ hmem

end Verbatim

/-- An expression in the text does not reach beyond it, nor does one begin at its end. -/
def Seamless (look : List Char → Json) (s : List Char) : Prop :=
  ∀ rest, filling look (s ++ rest) = filling look s ++ filling look rest

theorem Verbatim.filling_eq {s : List Char} (h : Verbatim s) : filling look s = s := by
  have hself := h look []
  rwa [List.append_nil, filling_nil, List.append_nil] at hself

theorem Verbatim.seamless {s : List Char} (h : Verbatim s) : Seamless look s := by
  intro rest
  rw [h, h.filling_eq]

/-- What can be filled by themselves can be filled next to each other. -/
theorem Seamless.append {s t : List Char} (hs : Seamless look s) (ht : Seamless look t) :
    Seamless look (s ++ t) := by
  intro rest
  rw [List.append_assoc, hs, ht, hs, List.append_assoc]

theorem Verbatim.append_seamless {s t : List Char} (hs : Verbatim s) (ht : Seamless look t) :
    Seamless look (s ++ t) := hs.seamless.append ht

/-- An expression ends with its brace, so it can be filled by itself. -/
theorem seamless_expression {expression : List Char} (h : '}' ∉ expression) :
    Seamless look ('@' :: '{' :: (expression ++ ['}'])) := by
  intro rest
  simp only [List.cons_append, List.append_assoc, List.nil_append]
  rw [filling_expression h, filling_expression h, filling_nil, List.append_nil]

theorem verbatim_separator (first : Bool) : Verbatim (Json.separator first) :=
  .of_notMem (by cases first <;> decide)

/-- Blanks around a text do not matter to how it is filled. -/
theorem Seamless.chars {spaced : Json.Spaced} (h : Seamless look spaced.text) :
    Seamless look spaced.chars ∧
      filling look spaced.chars = (spaced.map (filling look)).chars := by
  have hbefore := Verbatim.blank spaced.blank_before
  have hbehind := Verbatim.blank spaced.blank_behind
  refine ⟨hbefore.append_seamless (h.append hbehind.seamless), ?_⟩
  rw [Json.Spaced.chars, hbefore, h, hbehind.filling_eq]
  rfl

/-- Items of a list are filled one by one, and what separates them stays. -/
theorem filling_listed (first : Bool) {items : List Json.Spaced}
    (h : ∀ item ∈ items, Seamless look item.text) :
    Seamless look (Json.listed first items) ∧
      filling look (Json.listed first items) =
        Json.listed first (items.map (·.map (filling look))) := by
  induction items generalizing first with
  | nil =>
    have hclose : Verbatim [']'] := .of_notMem (by decide)
    exact ⟨hclose.seamless, hclose.filling_eq⟩
  | cons item items ih =>
    obtain ⟨hitem, hmore⟩ := List.forall_mem_cons.mp h
    obtain ⟨hlater, hfilled⟩ := ih false hmore
    refine ⟨(verbatim_separator first).append_seamless (hitem.chars.1.append hlater), ?_⟩
    rw [Json.listed, verbatim_separator, hitem.chars.1, hitem.chars.2, hfilled]
    rfl

/-- Members of an object keep their names, and their values are filled one by one. -/
theorem filling_membered (first : Bool) {fields : List (Json.Spaced × Json.Spaced)}
    (hkeys : ∀ field ∈ fields, Verbatim field.1.text)
    (hvalues : ∀ field ∈ fields, Seamless look field.2.text) :
    Seamless look (Json.membered first fields) ∧
      filling look (Json.membered first fields) =
        Json.membered first (fields.map fun field => (field.1, field.2.map (filling look))) := by
  induction fields generalizing first with
  | nil =>
    have hclose : Verbatim ['}'] := .of_notMem (by decide)
    exact ⟨hclose.seamless, hclose.filling_eq⟩
  | cons field fields ih =>
    obtain ⟨key, value⟩ := field
    obtain ⟨hkey, hmoreKeys⟩ := List.forall_mem_cons.mp hkeys
    obtain ⟨hvalue, hmoreValues⟩ := List.forall_mem_cons.mp hvalues
    obtain ⟨hlater, hfilled⟩ := ih false hmoreKeys hmoreValues
    have hname : Verbatim key.chars :=
      (Verbatim.blank key.blank_before).append (hkey.append (.blank key.blank_behind))
    have hcolon : Verbatim [':'] := .of_notMem (by decide)
    refine ⟨(verbatim_separator first).append_seamless (hname.append_seamless
      (hcolon.append_seamless (hvalue.chars.1.append hlater))), ?_⟩
    rw [Json.membered, verbatim_separator, hname, ← List.singleton_append, hcolon, hvalue.chars.1,
      hvalue.chars.2, hfilled]
    rfl

/-- A template that starts with text is not a lone expression. -/
theorem parts_ne_path {c : Char} (hc : c ≠ '@') (rest path : List Char) :
    parts (c :: rest) ≠ [.path path] := by
  rw [parts]
  split
  · exact nofun
  · next front opened hopen =>
    split
    · exact nofun
    · have hsplit := eq_of_cutOpening hopen
      cases front with
      | nil => exact absurd (List.cons.inj hsplit).1 hc
      | cons d front => exact nofun

/-- A template that is not a lone expression is filled and read again. -/
theorem ofTemplate_filling {template : String}
    (h : ∀ path, parts template.toList ≠ [.path path]) (key : String) :
    Field.ofTemplate look key template true =
      (Json.parse (String.ofList (filling look template.toList))).mapError fun error =>
        .evaluation key ("invalid JSON: " ++ error.message) := by
  have hfill : fill true look (parts template.toList) =
      String.ofList (filling look template.toList) := rfl
  rw [Field.ofTemplate]
  simp only [if_true, hfill]
  cases Json.parse (String.ofList (filling look template.toList)) <;>
    simp only [Except.mapError]

end Filling

/-- A character that begins an opening is no hexadecimal digit. -/
theorem notMem_of_hexFour? {a b c d : Char} {n : Nat}
    (h : Json.Reader.hexFour? a b c d = some n) : '@' ∉ [a, b, c, d] := by
  have hnone : Json.Reader.hexValue? '@' = none := rfl
  intro hmem
  simp only [List.mem_cons, List.not_mem_nil, or_false] at hmem
  obtain rfl | rfl | rfl | rfl := hmem <;> simp [Json.Reader.hexFour?, hnone] at h

/-- A string that opens no expression is all text, however its characters are spelled. -/
theorem verbatim_of_spells {spelled meant : List Char} (h : Json.Spells spelled meant)
    (hopen : Unopened meant) : Verbatim (spelled ++ ['"']) := by
  induction h with
  | nil => exact .of_notMem (by decide)
  | @raw c spelled meant hraw hrest ih =>
    intro look rest
    rw [List.cons_append, List.cons_append, filling_cons, ih hopen.of_cons, List.cons_append]
    rintro ⟨rfl, hhead⟩
    cases hrest with
    | nil => cases hhead
    | @raw d _ more =>
      obtain rfl : d = '{' := by simpa using hhead
      exact hopen ⟨[], more, rfl⟩
    | letter => cases hhead
    | unit => cases hhead
    | pair => cases hhead
  | @letter l c spelled meant hletter hrest ih =>
    have hl : l ≠ '@' := by
      rintro rfl
      cases hletter
    exact .cons (by decide) (.cons hl (ih hopen.of_cons))
  | unit hunit hsingle hrest ih =>
    have hdigits := Verbatim.of_notMem (notMem_of_hexFour? hunit)
    exact .cons (by decide) (.cons (by decide) (hdigits.append (ih hopen.of_cons)))
  | pair hhigh hleads hlow htrails hrest ih =>
    have hdigits := Verbatim.of_notMem (notMem_of_hexFour? hhigh)
    have hmore := Verbatim.of_notMem (notMem_of_hexFour? hlow)
    exact .cons (by decide) (.cons (by decide) (hdigits.append
      (.cons (by decide) (.cons (by decide) (hmore.append (ih hopen.of_cons))))))

theorem verbatim_of_quoted {s : String} {written : List Char} (h : Json.Quoted s written)
    (hopen : Unopened s.toList) : Verbatim written := by
  obtain ⟨spelled, rfl, hspells⟩ := h
  exact .cons (by decide) (verbatim_of_spells hspells hopen)

theorem verbatim_writeInt (n : Int) : Verbatim (Json.writeInt n) := by
  have hdigits : ∀ m, Verbatim (Nat.toDigits 10 m) := fun m =>
    .of_notMem fun hmem => by cases Json.Reader.isDigit_of_mem_toDigits hmem
  cases n with
  | ofNat m => exact hdigits m
  | negSucc m => exact .cons (by decide) (hdigits (m + 1))

namespace Skeleton

variable {skeleton : Skeleton} {written : List Char} {look : List Char → Json}

/-- The text of a skeleton can be filled by itself: no hole reaches beyond it. -/
theorem Spelled.seamless (h : skeleton.Spelled written) : Seamless look written := by
  induction h with
  | null => exact (Verbatim.of_notMem (by decide)).seamless
  | bool b => cases b <;> exact (Verbatim.of_notMem (by decide)).seamless
  | int hfits => exact (verbatim_writeInt _).seamless
  | text hquoted hopen => exact (verbatim_of_quoted hquoted hopen).seamless
  | list hblank _ ih =>
    exact (Verbatim.cons (by decide) (.blank hblank)).append_seamless
      (filling_listed true (List.forall_mem_map.mpr ih)).1
  | object hblank _ hnames _ ih =>
    refine (Verbatim.cons (by decide) (.blank hblank)).append_seamless
      (filling_membered true (List.forall_mem_map.mpr ?_) (List.forall_mem_map.mpr ih)).1
    exact fun field hfield => verbatim_of_quoted (hnames field hfield).1 (hnames field hfield).2
  | hole hclose => exact seamless_expression hclose

/-- The text, once it is filled, opens a value and is read as the skeleton with its holes filled. -/
structure Rereads (look : List Char → Json) (skeleton : Skeleton) (written : List Char) : Prop where
  opens : Json.Opens (filling look written)
  reads : ∀ depth, (skeleton.fill look).depth ≤ depth →
    Json.Reader.Reads (Json.Reader.value depth) (filling look written) (skeleton.fill look)

namespace Rereads

/-- What is filled with the written form of an exact value is read as that value. -/
theorem of_exact (hexact : (skeleton.fill look).Exact)
    (hfilled : filling look written = (skeleton.fill look).write) :
    Rereads look skeleton written where
  opens := by
    rw [hfilled]
    exact hexact.opens
  reads depth hdepth := by
    rw [hfilled]
    exact hexact.reads hdepth

/-- A list is reread if its items are. -/
theorem list {items : List (Json.Spaced × Skeleton)} {blank : List Char} (hblank : Json.Blank blank)
    (hseamless : ∀ item ∈ items, Seamless look item.1.text)
    (hitems : ∀ item ∈ items, Rereads look item.2 item.1.text) :
    Rereads look (.list (items.map Prod.snd))
      ('[' :: (blank ++ Json.listed true (items.map Prod.fst))) := by
  have hbracket : Verbatim ('[' :: blank) := .cons (by decide) (.blank hblank)
  have hfilled : filling look ('[' :: (blank ++ Json.listed true (items.map Prod.fst))) =
      '[' :: (blank ++ Json.listed true ((items.map Prod.fst).map (·.map (filling look)))) := by
    rw [← List.cons_append, hbracket,
      (filling_listed true (List.forall_mem_map.mpr hseamless)).2, List.cons_append]
  constructor
  case opens =>
    rw [hfilled]
    exact ⟨'[', _, rfl, rfl, by decide⟩
  case reads =>
    intro depth hdepth
    obtain ⟨depth, rfl⟩ := Nat.exists_eq_add_one.mpr (Nat.zero_lt_of_lt hdepth)
    rw [fill, fillItems_eq] at hdepth ⊢
    have hread : ∀ item ∈ items,
        Json.Reader.Reads (Json.Reader.value depth) (filling look item.1.text)
          (item.2.fill look) ∧ Json.Opens (filling look item.1.text) := by
      intro item hitem
      have hmem := List.mem_map_of_mem (f := fill look)
        (List.mem_map_of_mem (f := Prod.snd) hitem)
      exact ⟨(hitems item hitem).reads depth (Json.depth_item_le hmem hdepth),
        (hitems item hitem).opens⟩
    have hlist := Json.Reader.reads_listed
      (items.map fun item => (item.1.map (filling look), item.2.fill look))
      (List.forall_mem_map.mpr hread) hblank
    rw [hfilled]
    simpa [Function.comp_def] using hlist

/-- An object is reread if its members are, as their names differ and open no expression. -/
theorem object {fields : List ((Json.Spaced × Json.Spaced) × (String × Skeleton))}
    {blank : List Char} (hblank : Json.Blank blank)
    (hkeys : ((fields.map Prod.snd).map Prod.fst).Nodup)
    (hnames : ∀ field ∈ fields, Json.Quoted field.2.1 field.1.1.text ∧ Unopened field.2.1.toList)
    (hseamless : ∀ field ∈ fields, Seamless look field.1.2.text)
    (hvalues : ∀ field ∈ fields, Rereads look field.2.2 field.1.2.text) :
    Rereads look (.object (fields.map Prod.snd))
      ('{' :: (blank ++ Json.membered true (fields.map Prod.fst))) := by
  have hbrace : Verbatim ('{' :: blank) := .cons (by decide) (.blank hblank)
  have hquoted : ∀ field ∈ fields, Verbatim field.1.1.text := fun field hfield =>
    verbatim_of_quoted (hnames field hfield).1 (hnames field hfield).2
  have hfilled : filling look ('{' :: (blank ++ Json.membered true (fields.map Prod.fst))) =
      '{' :: (blank ++ Json.membered true ((fields.map Prod.fst).map fun field =>
        (field.1, field.2.map (filling look)))) := by
    rw [← List.cons_append, hbrace, (filling_membered true (List.forall_mem_map.mpr hquoted)
      (List.forall_mem_map.mpr hseamless)).2, List.cons_append]
  constructor
  case opens =>
    rw [hfilled]
    exact ⟨'{', _, rfl, rfl, by decide⟩
  case reads =>
    intro depth hdepth
    obtain ⟨depth, rfl⟩ := Nat.exists_eq_add_one.mpr (Nat.zero_lt_of_lt hdepth)
    rw [fill, fillFields_eq] at hdepth ⊢
    have hread : ∀ field ∈ fields, Json.Quoted field.2.1 field.1.1.text ∧
        Json.Reader.Reads (Json.Reader.value depth) (filling look field.1.2.text)
          (field.2.2.fill look) := by
      intro field hfield
      have hmem := List.mem_map_of_mem
        (f := fun field : String × Skeleton => (field.1, field.2.fill look))
        (List.mem_map_of_mem (f := Prod.snd) hfield)
      exact ⟨(hnames field hfield).1,
        (hvalues field hfield).reads depth (Json.depth_field_le _ hmem hdepth)⟩
    have hobject := Json.Reader.reads_membered
      (fields.map fun field =>
        ((field.1.1, field.1.2.map (filling look)), (field.2.1, field.2.2.fill look)))
      (List.forall_mem_map.mpr hread) (by simpa [Function.comp_def] using hkeys) hblank
    rw [hfilled]
    simpa [Function.comp_def] using hobject

end Rereads

/-- The text of a skeleton, with the written forms of values in its holes, is read as the skeleton
with these values in its holes. -/
theorem Spelled.rereads (h : skeleton.Spelled written)
    (hholes : ∀ hole ∈ skeleton.holes, Json.Exact (look (Text.trim hole))) :
    Rereads look skeleton written := by
  induction h with
  | null => exact .of_exact .null (Verbatim.of_notMem (by decide)).filling_eq
  | bool b =>
    exact .of_exact (.bool b) (Verbatim.of_notMem (by cases b <;> decide)).filling_eq
  | int hfits => exact .of_exact (.int hfits) (verbatim_writeInt _).filling_eq
  | text hquoted hopen =>
    have hfilled : filling look _ = _ := (verbatim_of_quoted hquoted hopen).filling_eq
    have hreads := Json.Reader.reads_quoted hquoted
    obtain ⟨spelled, rfl, -⟩ := hquoted
    constructor
    case opens =>
      rw [hfilled]
      exact Json.Reader.opens_of_scalar rfl _
    case reads =>
      intro depth _
      rw [hfilled]
      exact hreads.value rfl depth
  | list hblank hitems ih =>
    refine .list hblank (fun item hitem => (hitems item hitem).seamless) fun item hitem => ?_
    have hmem := List.mem_map_of_mem (f := Prod.snd) hitem
    exact ih item hitem fun hole hhole => hholes hole (mem_holesItems hmem hhole)
  | object hblank hkeys hnames hvalues ih =>
    refine .object hblank hkeys hnames (fun field hfield => (hvalues field hfield).seamless)
      fun field hfield => ?_
    have hmem := List.mem_map_of_mem (f := Prod.snd) hfield
    exact ih field hfield fun hole hhole => hholes hole (mem_holesFields hmem hhole)
  | hole hclose =>
    refine .of_exact (hholes _ (List.mem_singleton_self _)) ?_
    rw [filling_expression hclose, filling_nil, List.append_nil]
    rfl

/-- The text of a skeleton starts with an expression only if it is one. -/
theorem Spelled.starts (h : skeleton.Spelled written) :
    (∃ expression, '}' ∉ expression ∧ skeleton = .hole expression ∧
      written = '@' :: '{' :: (expression ++ ['}'])) ∨
    ∃ c rest, written = c :: rest ∧ c ≠ '@' := by
  cases h with
  | null => exact Or.inr ⟨'n', _, rfl, by decide⟩
  | bool b =>
    cases b with
    | true => exact Or.inr ⟨'t', _, rfl, by decide⟩
    | false => exact Or.inr ⟨'f', _, rfl, by decide⟩
  | @int n hfits =>
    obtain ⟨c, rest, hwritten, hc⟩ := Json.Reader.exists_writeInt_cons n
    refine Or.inr ⟨c, rest, hwritten, ?_⟩
    rintro rfl
    revert hc
    decide
  | text hquoted hopen =>
    obtain ⟨spelled, rfl, -⟩ := hquoted
    exact Or.inr ⟨'"', _, rfl, by decide⟩
  | list => exact Or.inr ⟨'[', _, rfl, by decide⟩
  | object => exact Or.inr ⟨'{', _, rfl, by decide⟩
  | hole hclose => exact Or.inl ⟨_, hclose, rfl, rfl⟩

theorem Spelled.chars_ne_nil {text : Json.Spaced} (h : skeleton.Spelled text.text) :
    text.chars ≠ [] := by
  rw [Json.Spaced.chars]
  obtain ⟨_, _, _, htext⟩ | ⟨c, rest, htext, _⟩ := h.starts <;> simp [htext]

/-- If the text of a skeleton is a lone expression, then the skeleton is a hole. -/
theorem Spelled.fill_of_parts {text : Json.Spaced} (h : skeleton.Spelled text.text)
    {path : List Char} (hparts : parts text.chars = [.path path]) :
    skeleton.fill look = look path := by
  obtain ⟨before, written, behind, hbefore, hbehind⟩ := text
  cases before with
  | cons c before =>
    have hc : c ≠ '@' := by
      rintro rfl
      cases hbefore '@' List.mem_cons_self
    exact absurd hparts (parts_ne_path hc _ path)
  | nil =>
    obtain ⟨expression, hclose, rfl, rfl⟩ | ⟨c, rest, rfl, hc⟩ := h.starts
    · have htext : '@' :: '{' :: (expression ++ ['}']) ++ behind =
          '@' :: '{' :: (expression ++ '}' :: behind) := by simp
      rw [Json.Spaced.chars, List.nil_append, htext,
        parts_of_cut rfl (cutClosing_append hclose behind)] at hparts
      cases (List.cons.inj hparts).1
      rfl
    · exact absurd hparts (parts_ne_path hc _ path)

/-- The text of a skeleton is read as the skeleton with its holes filled. -/
theorem Spelled.ofTemplate {text : Json.Spaced} (h : skeleton.Spelled text.text)
    (hholes : ∀ hole ∈ skeleton.holes, Json.Exact (look (Text.trim hole)))
    (hdepth : (skeleton.fill look).depth ≤ Json.depthLimit) (key : String) :
    Field.ofTemplate look key (String.ofList text.chars) true = .ok (skeleton.fill look) := by
  have hparse : Json.parse (String.ofList (filling look text.chars)) =
      .ok (skeleton.fill look) := by
    rw [h.seamless.chars.2]
    exact Json.Spaced.parse_chars ((h.rereads hholes).reads _ hdepth)
  by_cases hlone : ∃ path, parts text.chars = [.path path]
  · obtain ⟨path, hparts⟩ := hlone
    simp only [Field.ofTemplate, String.toList_ofList, hparts, if_true, h.fill_of_parts hparts]
  · rw [ofTemplate_filling (by simpa using hlone), String.toList_ofList, hparse]
    rfl

end Skeleton

end Template

namespace Field

open Template (Skeleton)

/-- A field that is the text of a JSON value with holes yields this value with what their paths
lead to in the holes. -/
theorem Authored.evaluate_skeleton {skeleton : Skeleton} {text : Json.Spaced}
    (hspelled : skeleton.Spelled text.text) {tree : Tree} {path : List Instance} {key : String}
    (hfield : Authored tree path key (String.ofList text.chars)) {state : State}
    {env : Environment}
    (hexact : ∀ hole ∈ skeleton.holes, (state.lookup env (Text.trim hole)).Exact)
    (hdepth : (skeleton.fill (state.lookup env)).depth ≤ Json.depthLimit) (default : String) :
    evaluate tree state env path key true default = .ok (skeleton.fill (state.lookup env)) := by
  have hsome : String.ofList text.chars ≠ "" := by
    rw [Ne, ← String.toList_inj, String.toList_ofList]
    exact hspelled.chars_ne_nil
  rw [hfield.evaluate_eq hsome, hspelled.ofTemplate hexact hdepth]

namespace Sample

/-- A list of a hole and a number, with spaces around them. -/
def items : List (Json.Spaced × Skeleton) :=
  [({ text := "@\x7b x \x7d".toList, behind := [' '], blank_behind := by decide },
      .hole " x ".toList),
    ({ before := [' '], text := ['-', '1'], blank_before := by decide }, .int (-1))]

/-- Two members, the first of which has an escape in its name. -/
def members : List ((Json.Spaced × Json.Spaced) × (String × Skeleton)) :=
  [((.bare "\"a\\u0062\"".toList, .bare ('[' :: Json.listed true (items.map Prod.fst))),
      ("ab", .list (items.map Prod.snd))),
    (({ text := ['"', 'u', '"'], behind := [' '], blank_behind := by decide },
      .bare "@\x7bs.k\x7d".toList), ("u", .hole "s.k".toList))]

/-- The two members, one of which is the list. -/
def skeleton : Skeleton := .object (members.map Prod.snd)

/-- The members between braces, behind a space. -/
def document : Json.Spaced where
  before := [' ']
  text := '{' :: Json.membered true (members.map Prod.fst)
  blank_before := by decide

/-- The document as the text of a field. -/
def template : String := " \x7b\"a\\u0062\":[@\x7b x \x7d , -1],\"u\" :@\x7bs.k\x7d\x7d"

/-- The document is a text of the skeleton. -/
theorem spelled_skeleton : skeleton.Spelled document.text := by
  have hname : Json.Quoted "ab" "\"a\\u0062\"".toList :=
    ⟨['a', '\\', 'u', '0', '0', '6', '2'], by decide,
      .raw (by decide) (.unit (n := 0x62) (by decide) (Or.inl (by decide)) .nil)⟩
  have hother : Json.Quoted "u" ['"', 'u', '"'] :=
    ⟨['u'], rfl, .raw (by decide) .nil⟩
  have hitems : ∀ item ∈ items, item.2.Spelled item.1.text :=
    List.forall_mem_cons.mpr ⟨.hole (by decide), List.forall_mem_cons.mpr
      ⟨.int (by decide), List.forall_mem_nil _⟩⟩
  refine .object Json.Blank.nil (by decide) ?_ ?_
  · exact List.forall_mem_cons.mpr ⟨⟨hname, by decide⟩, List.forall_mem_cons.mpr
      ⟨⟨hother, by decide⟩, List.forall_mem_nil _⟩⟩
  · exact List.forall_mem_cons.mpr ⟨.list Json.Blank.nil hitems, List.forall_mem_cons.mpr
      ⟨.hole (by decide), List.forall_mem_nil _⟩⟩

def node : Node :=
  { id := "n", type := "node", content := [("value", .text template)] }

def tree : Tree where
  nodes := [node]
  distinct := by decide

end Sample

/-- A value that looks like the end of its string, of its list and like an expression is data. -/
theorem Authored.evaluate_skeleton_document :
    String.ofList Sample.document.chars = Sample.template ∧
      evaluate Sample.tree [("s", .object [("k", .list [])])]
        (.ofList [("x", .text "\"]@\x7bs\x7d")]) [⟨"n", 0⟩] "value" true "" =
      .ok (.object [("ab", .list [.text "\"]@\x7bs\x7d", .int (-1)]), ("u", .list [])]) := by
  have htext : String.ofList Sample.document.chars = Sample.template := by decide +kernel
  have hfield : Authored Sample.tree [⟨"n", 0⟩] "value" (String.ofList Sample.document.chars) :=
    ⟨⟨"n", 0⟩, Sample.node, rfl, rfl, htext ▸ rfl⟩
  refine ⟨htext, ?_⟩
  refine (evaluate_skeleton Sample.spelled_skeleton hfield ?_ ?_ "").trans ?_
  · exact List.forall_mem_cons.mpr ⟨.text _, List.forall_mem_cons.mpr
      ⟨.list (List.forall_mem_nil _), List.forall_mem_nil _⟩⟩
  · decide +kernel
  · rfl

end Field

end Workflow
