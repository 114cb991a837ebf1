import Workflow.Environment
import Workflow.Template
import Workflow.Text.Natural

namespace Workflow

/-- The application state: a tree of values that paths lead into. -/
abbrev State := Bindings Json

/-- The value one step below another: a member of an object, or the item of a list at the position
that the name stands for. -/
def Json.child? : Json → String → Option Json
  | .object fields, name => Bindings.find? fields name
  | .list items, name => (Text.natural? name).bind fun i => items[i]?
  | _, _ => none

/-- The value at the end of a path. -/
def Json.follow? : Json → List String → Option Json
  | value, [] => some value
  | value, name :: rest => (value.child? name).bind fun next => next.follow? rest

namespace State

/-- The value that a dotted path leads to, `null` where it leads nowhere. The first name is looked
up among the variables and then in the state. -/
def lookup (state : State) (env : Environment) (path : List Char) : Json :=
  match Template.names path with
  | [] => .null
  | head :: rest =>
    match (env.get? head).or (Bindings.find? state head) with
    | none => .null
    | some root => (root.follow? rest).getD .null

/-- Stores a value at a path. What is not an object on the way there is replaced by one. -/
def write : State → List String → Json → State
  | state, [], _ => state
  | state, [name], value => Bindings.insert state name value
  | state, name :: next :: rest, value =>
    let below := match Bindings.find? state name with
      | some (.object fields) => fields
      | _ => []
    Bindings.insert state name (.object (write below (next :: rest) value))

end State

end Workflow
