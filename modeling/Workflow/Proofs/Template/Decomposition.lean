import Mathlib.Logic.ExistsUnique
import Workflow.Proofs.State

namespace Workflow

namespace Template

/-- Nowhere in the text an expression is opened. -/
def Unopened (text : List Char) : Prop := ¬ ['@', '{'] <:+: text

instance (text : List Char) : Decidable (Unopened text) :=
  inferInstanceAs (Decidable (¬ ['@', '{'] <:+: text))

/-- An expression, as it stands between its opening and its brace, with the text in front of it. -/
structure Segment where
  text : List Char
  expression : List Char

/-- A template cut at its expressions. -/
structure Decomposition where
  segments : List Segment
  /-- The text behind the last expression. -/
  last : List Char

section Cut

variable {s front rest opened : List Char}

theorem Unopened.nil : Unopened [] := by simp [Unopened]

theorem Unopened.of_cons {c : Char} (h : Unopened (c :: rest)) : Unopened rest :=
  fun hinfix => h (List.infix_cons hinfix)

/-- A text that cannot be cut at an opening has none. -/
theorem unopened_of_cutOpening_eq_none (h : cutOpening s = none) : Unopened s := by
  induction s with
  | nil => exact .nil
  | cons c s ih =>
    intro hinfix
    cases s with
    | nil => simpa using hinfix.length_le
    | cons d s =>
      rw [cutOpening] at h
      split at h
      · cases h
      · next hopen =>
        obtain hhead | hlater := List.infix_cons_iff.mp hinfix
        · simp only [List.cons_prefix_cons, List.nil_prefix, and_true] at hhead
          exact hopen ⟨hhead.1.symm, hhead.2.symm⟩
        · exact ih (Option.map_eq_none_iff.mp h) hlater

/-- The text before the first opening has none. -/
theorem unopened_of_cutOpening (h : cutOpening s = some (front, rest)) : Unopened front := by
  induction s generalizing front with
  | nil => cases h
  | cons c s ih =>
    cases s with
    | nil => cases h
    | cons d s =>
      rw [cutOpening] at h
      split at h
      · cases h
        exact .nil
      · next hopen =>
        obtain ⟨⟨before, behind⟩, hcut, heq⟩ := Option.map_eq_some_iff.mp h
        cases heq
        intro hinfix
        obtain hhead | hlater := List.infix_cons_iff.mp hinfix
        · obtain _ | ⟨second, more⟩ := before
          · simp at hhead
          · have hsplit := eq_of_cutOpening hcut
            rw [List.cons_append] at hsplit
            obtain ⟨rfl, -⟩ := List.cons.inj hsplit
            simp only [List.cons_prefix_cons, List.nil_prefix, and_true] at hhead
            exact hopen ⟨hhead.1.symm, hhead.2.symm⟩
        · exact ih hcut hlater

/-- A template is cut at its first opening. -/
theorem cutOpening_append (h : Unopened front) (rest : List Char) :
    cutOpening (front ++ '@' :: '{' :: rest) = some (front, rest) := by
  induction front with
  | nil => rfl
  | cons c front ih =>
    have hlater := ih h.of_cons
    cases front with
    | nil => simp [cutOpening]
    | cons d front =>
      have hopen : ¬ (c = '@' ∧ d = '{') := by
        rintro ⟨rfl, rfl⟩
        exact h ⟨[], front, rfl⟩
      rw [List.cons_append, List.cons_append, cutOpening, if_neg hopen, ← List.cons_append, hlater]
      rfl

/-- A text that cannot be cut at a closing brace has none. -/
theorem notMem_of_cutClosing_eq_none (h : cutClosing s = none) : '}' ∉ s := by
  induction s with
  | nil => exact List.not_mem_nil
  | cons c s ih =>
    rw [cutClosing] at h
    split at h
    · cases h
    · next hclose =>
      rw [List.mem_cons, not_or]
      exact ⟨Ne.symm hclose, ih (Option.map_eq_none_iff.mp h)⟩

/-- The text before the first closing brace has none. -/
theorem notMem_of_cutClosing (h : cutClosing s = some (front, rest)) : '}' ∉ front := by
  induction s generalizing front with
  | nil => cases h
  | cons c s ih =>
    rw [cutClosing] at h
    split at h
    · cases h
      exact List.not_mem_nil
    · next hclose =>
      obtain ⟨⟨before, behind⟩, hcut, heq⟩ := Option.map_eq_some_iff.mp h
      cases heq
      rw [List.mem_cons, not_or]
      exact ⟨Ne.symm hclose, ih hcut⟩

/-- A template whose first opening is not closed is text. -/
theorem parts_of_unclosed (hopen : cutOpening s = some (front, opened)) (hclose : '}' ∉ opened) :
    parts s = textPart s := by
  rw [parts]
  split
  · rfl
  · next other behind hother =>
    cases hopen.symm.trans hother
    split
    · rfl
    · next hcut => cases (cutClosing_of_notMem hclose).symm.trans hcut

/-- A template without an opening is text. -/
theorem parts_of_unopened (h : cutOpening s = none) : parts s = textPart s := by
  rw [parts]
  split
  · rfl
  · next hopen => cases h.symm.trans hopen

end Cut

namespace Decomposition

/-- The template that is cut. -/
def text (d : Decomposition) : List Char :=
  d.segments.flatMap (fun segment => segment.text ++ '@' :: '{' :: (segment.expression ++ ['}'])) ++
    d.last

/-- Expressions end with the first brace behind their openings, and every opening that is closed
opens one. -/
structure Proper (d : Decomposition) : Prop where
  expressions : ∀ segment ∈ d.segments, '}' ∉ segment.expression
  texts : ∀ segment ∈ d.segments, Unopened segment.text
  last : ∀ front rest, Unopened front → d.last = front ++ '@' :: '{' :: rest → '}' ∉ rest

/-- The texts that are not empty and the expressions without the blanks around them, in order. -/
def parts (d : Decomposition) : List Part :=
  d.segments.flatMap (fun segment =>
    textPart segment.text ++ [.path (Text.trim segment.expression)]) ++ textPart d.last

/-- The template with something written in the place of each expression. -/
def filled (written : List Char → List Char) (d : Decomposition) : List Char :=
  d.segments.flatMap (fun segment => segment.text ++ written segment.expression) ++ d.last

section Cons

variable {segment : Segment} {segments : List Segment} {last : List Char}

theorem text_cons :
    text ⟨segment :: segments, last⟩ =
      segment.text ++ '@' :: '{' :: (segment.expression ++ '}' :: text ⟨segments, last⟩) := by
  simp [text]

theorem parts_cons :
    parts ⟨segment :: segments, last⟩ =
      textPart segment.text ++ .path (Text.trim segment.expression) :: parts ⟨segments, last⟩ := by
  simp [parts]

/-- The first expression is opened by the first opening and ends with the first brace behind it. -/
theorem Proper.head (h : Proper ⟨segment :: segments, last⟩) :
    Unopened segment.text ∧ '}' ∉ segment.expression :=
  ⟨h.texts segment List.mem_cons_self, h.expressions segment List.mem_cons_self⟩

theorem Proper.tail (h : Proper ⟨segment :: segments, last⟩) : Proper ⟨segments, last⟩ where
  expressions other hother := h.expressions other (List.mem_cons_of_mem _ hother)
  texts other hother := h.texts other (List.mem_cons_of_mem _ hother)
  last := h.last

/-- An expression may be put in front of what is cut properly. -/
theorem Proper.cons (htext : Unopened segment.text) (hexpression : '}' ∉ segment.expression)
    (h : Proper ⟨segments, last⟩) : Proper ⟨segment :: segments, last⟩ where
  expressions := List.forall_mem_cons.mpr ⟨hexpression, h.expressions⟩
  texts := List.forall_mem_cons.mpr ⟨htext, h.texts⟩
  last := h.last

/-- The first expression is where the template is cut first. -/
theorem Proper.cut (h : Proper ⟨segment :: segments, last⟩) :
    cutOpening (text ⟨segment :: segments, last⟩) =
        some (segment.text, segment.expression ++ '}' :: text ⟨segments, last⟩) ∧
      cutClosing (segment.expression ++ '}' :: text ⟨segments, last⟩) =
        some (segment.expression, text ⟨segments, last⟩) := by
  rw [text_cons]
  exact ⟨cutOpening_append h.head.1 _, cutClosing_append h.head.2 _⟩

end Cons

/-- Behind the last expression there is none, so a template that has one is cut elsewhere. -/
theorem Proper.last_ne_text_cons {d : Decomposition} (h : d.Proper) {segment : Segment}
    {segments : List Segment} {last : List Char} (hother : Proper ⟨segment :: segments, last⟩) :
    d.last ≠ text ⟨segment :: segments, last⟩ := by
  intro heq
  rw [text_cons] at heq
  exact h.last _ _ hother.head.1 heq (List.mem_append_right _ List.mem_cons_self)

/-- Every template can be cut. -/
theorem exists_proper (template : List Char) :
    ∃ d : Decomposition, d.Proper ∧ d.text = template := by
  induction template using Template.parts.induct with
  | case1 s hopen =>
    refine ⟨⟨[], s⟩, ⟨List.forall_mem_nil _, List.forall_mem_nil _, ?_⟩, rfl⟩
    intro front rest hfront heq
    have hsplit : front ++ ['@', '{'] ++ rest = s := by
      rw [List.append_assoc]
      exact heq.symm
    exact absurd ⟨front, rest, hsplit⟩ (unopened_of_cutOpening_eq_none hopen)
  | case2 s front opened hopen hclose =>
    refine ⟨⟨[], s⟩, ⟨List.forall_mem_nil _, List.forall_mem_nil _, ?_⟩, rfl⟩
    intro other rest hother heq
    have hcut := cutOpening_append hother rest
    cases (heq ▸ hcut).symm.trans hopen
    exact notMem_of_cutClosing_eq_none hclose
  | case3 s front opened hopen path rest hclose ih =>
    obtain ⟨⟨segments, last⟩, hproper, htext⟩ := ih
    refine ⟨⟨⟨front, path⟩ :: segments, last⟩,
      .cons (unopened_of_cutOpening hopen) (notMem_of_cutClosing hclose) hproper, ?_⟩
    rw [text_cons, htext, ← eq_of_cutClosing hclose, ← eq_of_cutOpening hopen]

/-- A template can be cut in one way only. -/
theorem Proper.eq_of_text_eq {d other : Decomposition} (h : d.Proper) (hother : other.Proper)
    (heq : d.text = other.text) : d = other := by
  obtain ⟨segments, last⟩ := d
  induction segments generalizing other with
  | nil =>
    obtain ⟨_ | ⟨segment, others⟩, otherLast⟩ := other
    · obtain rfl : last = otherLast := heq
      rfl
    · exact absurd heq (h.last_ne_text_cons hother)
  | cons segment segments ih =>
    obtain ⟨_ | ⟨otherSegment, others⟩, otherLast⟩ := other
    · exact absurd heq.symm (hother.last_ne_text_cons h)
    · obtain ⟨hopen, hclose⟩ := h.cut
      obtain ⟨hotherOpen, hotherClose⟩ := hother.cut
      rw [heq, hotherOpen, Option.some.injEq, Prod.mk.injEq] at hopen
      rw [← hopen.2, hotherClose, Option.some.injEq, Prod.mk.injEq] at hclose
      have htail := ih hother.tail h.tail hclose.2.symm
      rw [Decomposition.mk.injEq] at htail ⊢
      obtain ⟨text, expression⟩ := segment
      obtain ⟨otherText, otherExpression⟩ := otherSegment
      obtain rfl : otherText = text := hopen.1
      obtain rfl : otherExpression = expression := hclose.1
      exact ⟨congrArg _ htail.1, htail.2⟩

/-- The pieces of a template are those of its decomposition. -/
theorem Proper.parts_text {d : Decomposition} (h : d.Proper) :
    Template.parts d.text = d.parts := by
  obtain ⟨segments, last⟩ := d
  induction segments with
  | nil =>
    show Template.parts last = textPart last
    cases hopen : cutOpening last with
    | none => exact parts_of_unopened hopen
    | some cut =>
      obtain ⟨front, opened⟩ := cut
      exact parts_of_unclosed hopen
        (h.last front opened (unopened_of_cutOpening hopen) (eq_of_cutOpening hopen))
  | cons segment segments ih =>
    rw [parts_of_cut h.cut.1 h.cut.2, ih h.tail, parts_cons]

theorem flatMap_fill_textPart (asJson : Bool) (look : List Char → Json) (chars : List Char) :
    (textPart chars).flatMap (Part.fill asJson look) = chars := by
  cases chars <;> simp [textPart, Part.fill]

/-- Filling the pieces of a template writes the values in the places of the expressions. -/
theorem fill_parts (asJson : Bool) (look : List Char → Json) (d : Decomposition) :
    fill asJson look d.parts =
      String.ofList (d.filled fun expression => splice asJson (look (Text.trim expression))) := by
  simp only [fill, parts, filled, List.flatMap_append, flatMap_fill_textPart, List.flatMap_assoc,
    List.flatMap_cons, List.flatMap_nil, List.append_nil, Part.fill]

end Decomposition

/-- Without a complete expression, a template is all text. -/
theorem Decomposition.segments_eq_nil {d : Decomposition}
    (h : ∀ front inner rest, d.text ≠ front ++ '@' :: '{' :: (inner ++ '}' :: rest)) :
    d.segments = [] := by
  obtain ⟨_ | ⟨segment, segments⟩, last⟩ := d
  · rfl
  · exact absurd text_cons (h _ _ _)

end Template

namespace Field

open Template (Decomposition)

variable {tree : Tree} {path : List Instance} {key template : String}

/-- A field that is read as text is its template with the text of a value in the place of each
expression. -/
theorem Authored.evaluate_text (h : Authored tree path key template) (hsome : template ≠ "")
    {d : Decomposition} (hproper : d.Proper) (htext : d.text = template.toList) (state : State)
    (env : Environment) (default : String) :
    evaluate tree state env path key false default =
      .ok (.text (String.ofList (d.filled fun expression =>
        (Json.plain (state.lookup env (Text.trim expression))).toList))) := by
  rw [h.evaluate_eq hsome, ofTemplate, ← htext, hproper.parts_text]
  simp only [Bool.false_eq_true, if_false, Decomposition.fill_parts, Template.splice]

end Field

namespace Template

/-- A template is cut at its expressions in exactly one way, and these are its pieces. Read as text,
it is that text with each expression replaced by the text of what it leads to. A template without a
complete expression stands for itself. -/
theorem decomposes_and_reads (template : String) :
    (∃! d : Decomposition, d.Proper ∧ d.text = template.toList) ∧
    ∀ d : Decomposition, d.Proper → d.text = template.toList →
      parts template.toList = d.parts ∧
      ∀ (tree : Tree) (path : List Instance) (key : String),
        Field.Authored tree path key template → template ≠ "" →
        ∀ (state : State) (env : Environment) (default : String),
          Field.evaluate tree state env path key false default =
            .ok (.text (String.ofList (d.filled fun expression =>
              (Json.plain (state.lookup env (Text.trim expression))).toList))) ∧
          ((∀ front inner rest,
              template.toList ≠ front ++ '@' :: '{' :: (inner ++ '}' :: rest)) →
            Field.evaluate tree state env path key false default = .ok (.text template)) := by
  refine ⟨?_, fun d hproper htext => ?_⟩
  · obtain ⟨d, hproper, htext⟩ := Decomposition.exists_proper template.toList
    refine ⟨d, ⟨hproper, htext⟩, fun other hother => ?_⟩
    exact hother.1.eq_of_text_eq hproper (hother.2.trans htext.symm)
  · refine ⟨htext ▸ hproper.parts_text, fun tree path key hfield hsome state env default => ?_⟩
    have hread := hfield.evaluate_text hsome hproper htext state env default
    refine ⟨hread, fun hnone => ?_⟩
    have hsegments : d.segments = [] := Decomposition.segments_eq_nil (htext.symm ▸ hnone)
    rw [hread]
    simp only [Decomposition.filled, Decomposition.text, hsegments, List.flatMap_nil,
      List.nil_append] at htext ⊢
    rw [htext, String.ofList_toList]

namespace Sample

/-- One expression with blanks around its path, and one that is never closed. -/
def greeting : String := "Hi @\x7b name \x7d! @\x7bx"

def greeter : Node :=
  { id := "g", type := "greeter", content := [("value", .text greeting)] }

def greeted : Tree where
  nodes := [greeter]
  distinct := by decide

/-- How the greeting is cut. -/
def segments : Decomposition where
  segments := [⟨['H', 'i', ' '], " name ".toList⟩]
  last := "! @\x7bx".toList

/-- The greeting is cut at its only complete expression. -/
theorem proper_segments : segments.Proper where
  expressions := by decide +kernel
  texts := by decide +kernel
  last front rest hfront heq := by
    have hcut := cutOpening_append hfront rest
    rw [← heq] at hcut
    cases hcut.symm.trans (show cutOpening segments.last = some (['!', ' '], ['x']) from rfl)
    decide

end Sample

/-- What a value looks like does not matter: it is not read as a template. -/
theorem decomposes_and_reads_greeting :
    Sample.segments.Proper ∧ Sample.segments.text = Sample.greeting.toList ∧
      parts Sample.greeting.toList =
        [.text ['H', 'i', ' '], .path "name".toList, .text "! @\x7bx".toList] ∧
      Field.evaluate Sample.greeted [] (.ofList [("name", .text "@\x7bx\x7d")]) [⟨"g", 0⟩] "value"
        false "" = .ok (.text "Hi @\x7bx\x7d! @\x7bx") := by
  have htext : Sample.segments.text = Sample.greeting.toList := by decide +kernel
  obtain ⟨-, hcut⟩ := decomposes_and_reads Sample.greeting
  obtain ⟨hparts, hread⟩ := hcut Sample.segments Sample.proper_segments htext
  have hfield : Field.Authored Sample.greeted [⟨"g", 0⟩] "value" Sample.greeting :=
    ⟨⟨"g", 0⟩, Sample.greeter, rfl, rfl, rfl⟩
  refine ⟨Sample.proper_segments, htext, hparts.trans (by decide +kernel), ?_⟩
  refine (hread _ _ _ hfield (by decide) _ _ _).1.trans ?_
  rfl

end Template

end Workflow
