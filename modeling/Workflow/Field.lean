import Workflow.Component.Tree
import Workflow.Json.Printer
import Workflow.Json.Reader.Value
import Workflow.State

namespace Workflow

/-- One level of the path to a component in use. -/
structure Instance where
  component : String
  number : Nat := 0
  deriving DecidableEq, Repr

/-- The path under which a component's own block looks up its fields. -/
def Instance.pathOf (component : String) : List Instance := [⟨component, 0⟩]

namespace Template

/-- How a value is written inside other text. -/
def splice (asJson : Bool) (value : Json) : List Char :=
  if asJson then Json.write value else (Json.plain value).toList

/-- The text of one part. -/
def Part.fill (asJson : Bool) (look : List Char → Json) : Part → List Char
  | .text chars => chars
  | .path chars => splice asJson (look chars)

/-- The text of a template whose paths are looked up with `look`. -/
def fill (asJson : Bool) (look : List Char → Json) (pieces : List Part) : String :=
  String.ofList (pieces.flatMap (Part.fill asJson look))

end Template

namespace Field

/-- The template of a field, or the value that stands in its place. The default is the template of
a field that is missing, `null` or empty. -/
def source (content : Bindings Json) (key default : String) : String ⊕ Json :=
  match Bindings.find? content key with
  | some (.text s) => .inl (if s.isEmpty then default else s)
  | some .null => .inl default
  | none => .inl default
  | some value => .inr value

/-- Reads a template as text or as JSON. An expression that fills the whole template keeps its
value; inside other text it is written out, as plain text or as JSON. -/
def ofTemplate (look : List Char → Json) (key template : String) (asJson : Bool) :
    Except BlockError Json :=
  let pieces := Template.parts template.toList
  if asJson then
    match pieces with
    | [.path chars] => .ok (look chars)
    | _ =>
      match Json.parse (Template.fill true look pieces) with
      | .ok value => .ok value
      | .error error => .error (.evaluation key ("invalid JSON: " ++ error.message))
  else .ok (.text (Template.fill false look pieces))

/-- Evaluates a field of the component at the end of the path. A text field is a template; what it
yields depends on the variables and on the state. -/
def evaluate (tree : Tree) (state : State) (env : Environment) (path : List Instance)
    (key : String) (asJson : Bool) (default : String) : Except BlockError Json :=
  match path.getLast? with
  | none => .error (.evaluation key "empty instance path")
  | some last =>
    match tree.get? last.component with
    | none => .error (.evaluation key ("component " ++ last.component ++ " not found"))
    | some node =>
      match source node.content key default with
      | .inl template => ofTemplate (state.lookup env) key template asJson
      | .inr value => .ok (if asJson then value else .text (Json.plain value))

end Field

namespace State

/-- The path that a template yields. No name in it may be empty. -/
def target (state : State) (env : Environment) (expression : String) :
    Except BlockError (List String) :=
  let path := Template.fill false (state.lookup env) (Template.parts expression.toList)
  let names := Template.names path.toList
  if "" ∈ names then .error (.state ("invalid state path \"" ++ path ++ "\"")) else .ok names

end State

end Workflow
