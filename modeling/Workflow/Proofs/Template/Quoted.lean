import Workflow.Proofs.Json.Between
import Workflow.Proofs.Template.Skeleton

namespace Workflow

namespace Template

variable {look : List Char → Json}

/-- Text that opens no expression stays in front if the character behind it does not complete an
opening. -/
theorem filling_unopened {s : List Char} (h : Unopened s) {mark : Char} (hmark : mark ≠ '{')
    (rest : List Char) : filling look (s ++ mark :: rest) = s ++ filling look (mark :: rest) := by
  induction s with
  | nil => rfl
  | cons c s ih =>
    rw [List.cons_append, filling_cons, ih h.of_cons, List.cons_append]
    rintro ⟨rfl, hhead⟩
    cases s with
    | nil => exact hmark (by simpa using hhead)
    | cons d s =>
      obtain rfl : d = '{' := by simpa using hhead
      exact h ⟨[], s, rfl⟩

/-- A list of one string in which an expression stands. -/
def quoted (p expression s : String) : String :=
  "[\"" ++ p ++ "@\x7b" ++ expression ++ "\x7d" ++ s ++ "\"]"

theorem toList_quoted (p expression s : String) :
    (quoted p expression s).toList = '[' :: '"' :: (p.toList ++
      '@' :: '{' :: (expression.toList ++ '}' :: (s.toList ++ ['"', ']']))) := by
  simp [quoted]

/-- The value of the expression stands between the quotes that end the text in front of it and
begin the text behind it. -/
theorem filling_quoted {p expression s : String} (hp : Unopened p.toList) (hs : Unopened s.toList)
    (hclose : '}' ∉ expression.toList) {v : String}
    (hlook : look (Text.trim expression.toList) = .text v) :
    filling look (quoted p expression s).toList =
      Json.flanked p.toList (v.toList.flatMap Json.writeChar) s.toList := by
  have hend : Verbatim ['"', ']'] := .of_notMem (by decide)
  rw [toList_quoted, filling_cons (by simp), filling_cons (by simp),
    filling_unopened hp (by decide), filling_expression hclose, filling_unopened hs (by decide),
    hend.filling_eq, hlook]
  simp [Json.flanked, splice, Json.write, Json.writeText]

end Template

namespace Field

open Template (Unopened)

section Quoted

variable {p expression s key : String} {tree : Tree} {path : List Instance} {state : State}
  {env : Environment} {v : String}

/-- A field whose only string has an expression in it is a list that has a value between two
strings. -/
theorem Authored.evaluate_eq_parse_flanked
    (hfield : Authored tree path key (Template.quoted p expression s)) (hp : Unopened p.toList)
    (hs : Unopened s.toList) (hclose : '}' ∉ expression.toList)
    (hlook : state.lookup env (Text.trim expression.toList) = .text v) (default : String) :
    evaluate tree state env path key true default =
      (Json.parse (String.ofList
          (Json.flanked p.toList (v.toList.flatMap Json.writeChar) s.toList))).mapError
        fun error => .evaluation key ("invalid JSON: " ++ error.message) := by
  have hlist := Template.toList_quoted p expression s
  have hsome : Template.quoted p expression s ≠ "" := by
    rw [Ne, ← String.toList_inj, hlist]
    exact List.cons_ne_nil _ _
  have hparts : ∀ names,
      Template.parts (Template.quoted p expression s).toList ≠ [.path names] := by
    intro names
    rw [hlist]
    exact Template.parts_ne_path (by decide) _ names
  rw [hfield.evaluate_eq hsome, Template.ofTemplate_filling hparts,
    Template.filling_quoted hp hs hclose hlook]

/-- An expression between the quotes of a string does not stay there. A value that is written with
an escape makes the field invalid. Another one is read as what it is between two strings, so the
field is invalid, or it is a list that starts with one part of the string and ends with the other;
what is between them has no texts and does not depend on these parts. -/
theorem Authored.evaluate_quoted
    (hfield : Authored tree path key (Template.quoted p expression s))
    (hp : Json.Unescaped p.toList) (hpOpen : Unopened p.toList) (hs : Json.Unescaped s.toList)
    (hsOpen : Unopened s.toList) (hclose : '}' ∉ expression.toList)
    (hlook : state.lookup env (Text.trim expression.toList) = .text v) (default : String) :
    (∀ error, evaluate tree state env path key true default = .error error →
      ∃ message, error = .evaluation key message) ∧
    (∀ value, evaluate tree state env path key true default = .ok value ↔
      Json.Unescaped v.toList ∧ ∃ items : List Json, (∀ item ∈ items, item.Textless) ∧
        Json.parse ("[\"\"" ++ v ++ "\"\"]") = .ok (.list (.text "" :: (items ++ [.text ""]))) ∧
        value = .list (.text p :: (items ++ [.text s]))) ∧
    ∀ item, evaluate tree state env path key true default ≠ .ok (.list [item]) := by
  have hvalue : ∀ value, evaluate tree state env path key true default = .ok value ↔
      Json.parse (String.ofList
        (Json.flanked p.toList (v.toList.flatMap Json.writeChar) s.toList)) = .ok value := by
    intro value
    rw [hfield.evaluate_eq_parse_flanked hpOpen hsOpen hclose hlook]
    cases Json.parse _ <;> simp [Except.mapError]
  simp only [Json.parse_written_flanked hp hs] at hvalue
  refine ⟨fun error herror => ?_, hvalue, fun item hitem => ?_⟩
  · rw [hfield.evaluate_eq_parse_flanked hpOpen hsOpen hclose hlook] at herror
    cases hread : Json.parse _ with
    | ok value =>
      rw [hread] at herror
      cases herror
    | error fault =>
      rw [hread] at herror
      cases herror
      exact ⟨_, rfl⟩
  · obtain ⟨-, items, -, -, heq⟩ := (hvalue _).mp hitem
    simp at heq

end Quoted

namespace Sample

def quotedNode : Node :=
  { id := "n", type := "node", content := [("value", .text (Template.quoted "p" "e" "s"))] }

def quotedTree : Tree where
  nodes := [quotedNode]
  distinct := by decide

theorem authored_quoted :
    Authored quotedTree [⟨"n", 0⟩] "value" (Template.quoted "p" "e" "s") :=
  ⟨⟨"n", 0⟩, quotedNode, rfl, rfl, rfl⟩

/-- An environment that binds the expression to a text. -/
def bound (value : String) : Environment := .ofList [("e", .text value)]

end Sample

/-- Lists and values without texts stand between the parts of the string. -/
theorem Authored.evaluate_quoted_items :
    evaluate Sample.quotedTree [] (Sample.bound ",[1],null,") [⟨"n", 0⟩] "value" true "" =
      .ok (.list [.text "p", .list [.int 1], .null, .text "s"]) := by
  have hone : (Json.int 1).Exact := .int (by decide)
  have hexact : (Json.list [.text "", .list [.int 1], .null, .text ""]).Exact := by
    refine .list ?_
    simp only [List.forall_mem_cons]
    exact ⟨.text _, .list (by simpa using hone), .null, .text _, List.forall_mem_nil _⟩
  have hparse := hexact.parse_written (by decide)
  have htext : (Json.list [.text "", .list [.int 1], .null, .text ""]).compact =
      "[\"\"" ++ ",[1],null," ++ "\"\"]" := by decide +kernel
  refine ((evaluate_quoted Sample.authored_quoted (by decide) (by decide) (by decide) (by decide)
    (by decide) rfl "").2.1 _).mpr ⟨by decide, [.list [.int 1], .null], ?_, htext ▸ hparse, rfl⟩
  simp only [List.forall_mem_cons]
  exact ⟨.list (by simpa using Json.Textless.int 1), .null, List.forall_mem_nil _⟩

/-- A comma between the quotes of a string makes it two strings. -/
theorem evaluate_quoted_comma :
    Template.quoted "p" "e" "s" = "[\"p@\x7be\x7ds\"]" ∧
      State.lookup [] (Sample.bound ",") ['e'] = .text "," ∧
      ¬ (evaluate Sample.quotedTree [] (Sample.bound ",") [⟨"n", 0⟩] "value" true "" =
          .ok (.list [.text "p,s"]) ∨
        ∃ message, evaluate Sample.quotedTree [] (Sample.bound ",") [⟨"n", 0⟩] "value" true "" =
          .error (.evaluation "value" message)) := by
  have htwo : evaluate Sample.quotedTree [] (Sample.bound ",") [⟨"n", 0⟩] "value" true "" =
      .ok (.list [.text "p", .text "s"]) := by
    have hexact : (Json.list [.text "p", .text "s"]).Exact := by
      refine .list ?_
      simp only [List.forall_mem_cons]
      exact ⟨.text _, .text _, List.forall_mem_nil _⟩
    have htext : (Json.list [.text "p", .text "s"]).compact = String.ofList
        (Json.flanked "p".toList (",".toList.flatMap Json.writeChar) "s".toList) := by
      decide +kernel
    rw [Sample.authored_quoted.evaluate_eq_parse_flanked (by decide) (by decide) (by decide) rfl,
      ← htext, hexact.parse_written (by decide)]
    rfl
  refine ⟨by decide +kernel, rfl, ?_⟩
  rw [htwo]
  simp

end Field

end Workflow
