import Workflow.Text.Blank
import Workflow.Text.Pieces

namespace Workflow

namespace Template

/-- A piece of a template: text, or an expression that stands between `@{` and the next `}`. An
opening without a closing brace behind it is text. -/
inductive Part where
  | text (chars : List Char)
  | path (chars : List Char)
  deriving DecidableEq, Repr

/-- The text before and behind the first opening of an expression. -/
def cutOpening : List Char → Option (List Char × List Char)
  | [] => none
  | [_] => none
  | c :: d :: rest =>
    if c = '@' ∧ d = '{' then some ([], rest)
    else (cutOpening (d :: rest)).map fun cut => (c :: cut.1, cut.2)

/-- The text before and behind the first closing brace. -/
def cutClosing : List Char → Option (List Char × List Char)
  | [] => none
  | c :: rest =>
    if c = '}' then some ([], rest) else (cutClosing rest).map fun cut => (c :: cut.1, cut.2)

/-- An opening separates the text before it from the text behind it. -/
theorem eq_of_cutOpening {s front rest : List Char} (h : cutOpening s = some (front, rest)) :
    s = front ++ '@' :: '{' :: rest := by
  induction s generalizing front with
  | nil => simp [cutOpening] at h
  | cons c s ih =>
    cases s with
    | nil => simp [cutOpening] at h
    | cons d s =>
      rw [cutOpening] at h
      split at h
      · rename_i hopen
        simp only [Option.some.injEq, Prod.mk.injEq] at h
        simp [← h.1, ← h.2, hopen]
      · simp only [Option.map_eq_some_iff, Prod.mk.injEq] at h
        obtain ⟨⟨before, behind⟩, hcut, rfl, rfl⟩ := h
        rw [ih hcut, List.cons_append]

/-- A closing brace separates the text before it from the text behind it. -/
theorem eq_of_cutClosing {s front rest : List Char} (h : cutClosing s = some (front, rest)) :
    s = front ++ '}' :: rest := by
  induction s generalizing front with
  | nil => simp [cutClosing] at h
  | cons c s ih =>
    rw [cutClosing] at h
    split at h
    · rename_i hclose
      simp only [Option.some.injEq, Prod.mk.injEq] at h
      simp [← h.1, ← h.2, hclose]
    · simp only [Option.map_eq_some_iff, Prod.mk.injEq] at h
      obtain ⟨⟨before, behind⟩, hcut, rfl, rfl⟩ := h
      rw [ih hcut, List.cons_append]

/-- A piece of text, or nothing where it is empty. -/
def textPart (chars : List Char) : List Part := if chars.isEmpty then [] else [.text chars]

/-- The pieces of a template, in order. Blanks around a path do not belong to it. -/
def parts (s : List Char) : List Part :=
  match _hopen : cutOpening s with
  | none => textPart s
  | some (front, opened) =>
    match _hclose : cutClosing opened with
    | none => textPart s
    | some (path, rest) => textPart front ++ .path (Text.trim path) :: parts rest
termination_by s.length
decreasing_by
  rw [eq_of_cutOpening _hopen, eq_of_cutClosing _hclose]
  simp
  omega

/-- The names in a dotted path, without the blanks around them. -/
def names (path : List Char) : List String :=
  (Text.pieces '.' path).map fun piece => String.ofList (Text.trim piece)

end Template

end Workflow
