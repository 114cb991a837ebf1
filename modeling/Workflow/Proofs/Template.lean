import Workflow.Proofs.Block.Reading

namespace Workflow

namespace Text

/-- The text neither starts nor ends with a blank. -/
structure Trimmed (text : List Char) : Prop where
  head : ∀ c ∈ text.head?, isBlank c = false
  last : ∀ c ∈ text.getLast?, isBlank c = false

theorem trimStart_of_head {text : List Char} (h : ∀ c ∈ text.head?, isBlank c = false) :
    trimStart text = text := by
  cases text with
  | nil => rfl
  | cons c rest =>
    have hblank := h c rfl
    simp [trimStart, hblank]

/-- Whether a text is trimmed shows in its first and in its last character. -/
theorem trimmed_iff {text : List Char} :
    Trimmed text ↔ text.head?.all (!isBlank ·) = true ∧ text.getLast?.all (!isBlank ·) = true := by
  simp only [Option.all_eq_true, Bool.not_eq_true']
  exact ⟨fun h => ⟨h.head, h.last⟩, fun h => ⟨h.1, h.2⟩⟩

instance (text : List Char) : Decidable (Trimmed text) := decidable_of_iff' _ trimmed_iff

/-- Text without blanks at its ends is left as it is. -/
theorem Trimmed.trim_eq {text : List Char} (h : Trimmed text) : trim text = text := by
  have hlast : ∀ c ∈ text.reverse.head?, isBlank c = false := by
    rw [List.head?_reverse]
    exact h.last
  rw [trim, trimStart_of_head h.head, trimStart_of_head hlast, List.reverse_reverse]

/-- Texts on both sides of a mark keep blanks away from the ends. -/
theorem Trimmed.append {front rest : List Char} (hfront : Trimmed front) (hsome : front ≠ [])
    (hrest : Trimmed rest) (hrestSome : rest ≠ []) (mark : Char) :
    Trimmed (front ++ mark :: rest) := by
  constructor
  · rw [List.head?_append, List.head?_eq_some_head hsome, Option.some_or,
      ← List.head?_eq_some_head hsome]
    exact hfront.head
  · rw [List.getLast?_append, List.getLast?_cons, List.getLast?_eq_some_getLast hrestSome,
      Option.getD_some, Option.some_or, ← List.getLast?_eq_some_getLast hrestSome]
    exact hrest.last

/-- Texts without the mark are the pieces of what is written with the mark between them. -/
theorem pieces_intercalate {mark : Char} {texts : List (List Char)} (hsome : texts ≠ [])
    (h : ∀ text ∈ texts, mark ∉ text) : pieces mark ([mark].intercalate texts) = texts := by
  induction texts with
  | nil => exact absurd rfl hsome
  | cons text rest ih =>
    obtain ⟨htext, hrest⟩ := List.forall_mem_cons.mp h
    cases rest with
    | nil => rw [List.intercalate_singleton, pieces_of_notMem htext]
    | cons next more =>
      rw [List.intercalate_cons_cons, List.append_assoc, List.singleton_append,
        pieces_append_mark htext, ih (List.cons_ne_nil _ _) hrest]

end Text

namespace Template

/-- A name that can stand in a dotted path, and in an expression. -/
structure IsName (name : String) : Prop where
  nonempty : name ≠ ""
  trimmed : Text.Trimmed name.toList
  undotted : '.' ∉ name.toList
  unclosed : '}' ∉ name.toList

/-- Names that can be written as a dotted path. -/
structure IsPath (path : List String) : Prop where
  nonempty : path ≠ []
  names : ∀ name ∈ path, IsName name

instance (name : String) : Decidable (IsName name) :=
  decidable_of_iff
    (name ≠ "" ∧ Text.Trimmed name.toList ∧ '.' ∉ name.toList ∧ '}' ∉ name.toList)
    ⟨fun h => ⟨h.1, h.2.1, h.2.2.1, h.2.2.2⟩, fun h => ⟨h.1, h.2, h.3, h.4⟩⟩

instance (path : List String) : Decidable (IsPath path) :=
  decidable_of_iff (path ≠ [] ∧ ∀ name ∈ path, IsName name)
    ⟨fun h => ⟨h.1, h.2⟩, fun h => ⟨h.1, h.2⟩⟩

/-- A path as text. -/
def dotted (path : List String) : String := ".".intercalate path

/-- The template whose only expression is the path. -/
def expression (path : List String) : String := "@\x7b" ++ dotted path ++ "\x7d"

@[simp] theorem dotted_singleton (name : String) : dotted [name] = name := by
  rw [dotted, ← String.toList_inj, String.toList_intercalate]
  simp

theorem toList_dotted_cons (name next : String) (rest : List String) :
    (dotted (name :: next :: rest)).toList =
      name.toList ++ '.' :: (dotted (next :: rest)).toList := by
  simp only [dotted, String.toList_intercalate, List.map_cons]
  rw [List.intercalate_cons_cons, List.append_assoc]
  rfl

theorem toList_expression (path : List String) :
    (expression path).toList = '@' :: '{' :: ((dotted path).toList ++ ['}']) := by
  rw [expression, String.toList_append, String.toList_append]
  rfl

theorem expression_ne_empty (path : List String) : expression path ≠ "" := by
  rw [Ne, ← String.toList_inj, toList_expression]
  exact List.cons_ne_nil _ _

theorem IsName.toList_ne_nil {name : String} (h : IsName name) : name.toList ≠ [] :=
  mt String.toList_eq_nil_iff.mp h.nonempty

namespace IsPath

variable {path : List String}

/-- The first name of a path can stand in it, and the others are a path. -/
theorem of_cons {name next : String} {rest : List String} (h : IsPath (name :: next :: rest)) :
    IsName name ∧ IsPath (next :: rest) :=
  ⟨h.names name List.mem_cons_self,
    List.cons_ne_nil _ _, fun other hother => h.names other (List.mem_cons_of_mem _ hother)⟩

/-- What holds of every name, and of a name with a dotted path behind it, holds of dotted paths. -/
theorem dotted_induction {motive : List Char → Prop} (h : IsPath path)
    (hname : ∀ name, IsName name → motive name.toList)
    (hcons : ∀ name rest, IsName name → motive rest → motive (name.toList ++ '.' :: rest)) :
    motive (dotted path).toList := by
  induction path with
  | nil => exact absurd rfl h.nonempty
  | cons name rest ih =>
    cases rest with
    | nil =>
      rw [dotted_singleton]
      exact hname name (h.names name List.mem_cons_self)
    | cons next rest =>
      rw [toList_dotted_cons]
      exact hcons name _ h.of_cons.1 (ih h.of_cons.2)

/-- A dotted path has no closing brace, so it cannot end an expression. -/
theorem unclosed (h : IsPath path) : '}' ∉ (dotted path).toList := by
  refine h.dotted_induction (motive := fun text => '}' ∉ text) (fun _ hname => hname.unclosed) ?_
  intro name rest hname hrest
  simp [hname.unclosed, hrest]

/-- A dotted path neither starts nor ends with a blank, as its names do not. -/
theorem trimmed (h : IsPath path) : Text.Trimmed (dotted path).toList := by
  refine (h.dotted_induction (motive := fun text => text ≠ [] ∧ Text.Trimmed text)
    (fun _ hname => ⟨hname.toList_ne_nil, hname.trimmed⟩) ?_).2
  rintro name rest hname ⟨hsome, hrest⟩
  exact ⟨by simp, hname.trimmed.append hname.toList_ne_nil hrest hsome '.'⟩

/-- A dotted path is read as the names that it was written with. -/
theorem names_dotted (h : IsPath path) : Template.names (dotted path).toList = path := by
  have hpieces : Text.pieces '.' (dotted path).toList = path.map String.toList := by
    rw [dotted, String.toList_intercalate]
    refine Text.pieces_intercalate (by simpa using h.nonempty) fun text htext => ?_
    obtain ⟨name, hname, rfl⟩ := List.mem_map.mp htext
    exact (h.names name hname).undotted
  rw [Template.names, hpieces, List.map_map]
  refine (List.map_congr_left fun name hname => ?_).trans (List.map_id path)
  rw [Function.comp_apply, (h.names name hname).trimmed.trim_eq, String.ofList_toList, id]

end IsPath

theorem cutClosing_of_notMem {s : List Char} (h : '}' ∉ s) : cutClosing s = none := by
  induction s with
  | nil => rfl
  | cons c rest ih =>
    simp only [List.mem_cons, not_or] at h
    rw [cutClosing, if_neg (Ne.symm h.1), ih h.2]
    rfl

/-- An expression ends with the first closing brace. -/
theorem cutClosing_append {front : List Char} (h : '}' ∉ front) (rest : List Char) :
    cutClosing (front ++ '}' :: rest) = some (front, rest) := by
  induction front with
  | nil => rfl
  | cons c front ih =>
    simp only [List.mem_cons, not_or] at h
    rw [List.cons_append, cutClosing, if_neg (Ne.symm h.1), ih h.2]
    rfl

theorem parts_nil : parts [] = [] := by
  rw [parts]
  rfl

/-- Without a closing brace a template has no expressions. -/
theorem parts_of_notMem {s : List Char} (h : '}' ∉ s) : parts s = textPart s := by
  rw [parts]
  split
  · rfl
  · next front opened hopen =>
    have hopened : '}' ∉ opened := fun hmem => h (by
      rw [eq_of_cutOpening hopen]
      simp [hmem])
    split
    · rfl
    · next hclose => cases (cutClosing_of_notMem hopened).symm.trans hclose

/-- A lone expression is one piece, whose path is what stands between the braces without the blanks
around it. -/
theorem parts_of_expression {inner : List Char} (h : '}' ∉ inner) :
    parts ('@' :: '{' :: (inner ++ ['}'])) = [.path (Text.trim inner)] := by
  have hopen : cutOpening ('@' :: '{' :: (inner ++ ['}'])) = some ([], inner ++ ['}']) := rfl
  rw [parts_of_cut hopen (cutClosing_append h []), parts_nil]
  rfl

variable {path : List String}

/-- A dotted path is a template that stands for itself. -/
theorem render_dotted (h : IsPath path) (look : List Char → Json) :
    render look (dotted path) = dotted path := by
  refine render_of_no_path fun chars hchars => ?_
  rw [parts_of_notMem h.unclosed, textPart] at hchars
  split at hchars
  · cases hchars
  · cases List.mem_singleton.mp hchars

/-- The template of a path has that path as its only piece. -/
theorem parts_expression (h : IsPath path) :
    parts (expression path).toList = [.path (dotted path).toList] := by
  rw [toList_expression, parts_of_expression h.unclosed, h.trimmed.trim_eq]

end Template

end Workflow
