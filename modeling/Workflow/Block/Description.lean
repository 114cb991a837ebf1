import Workflow.Json.Value

namespace Workflow

/-- How an outcome is drawn. -/
inductive OutStyle where
  | success
  | error
  | dynamic
  deriving DecidableEq, Repr

def OutStyle.name : OutStyle → String
  | .success => "success"
  | .error => "error"
  | .dynamic => "dynamic"

/-- One field of a block type. -/
structure FieldDescription where
  name : String := ""
  desc : String := ""
  default? : Option String := none
  initial? : Option String := none
  type : String := ""
  control? : Option String := none
  deriving DecidableEq, Repr, Inhabited

/-- One outcome of a block type. -/
structure OutDescription where
  name : String
  description : String
  style : OutStyle
  deriving DecidableEq, Repr

/-- What an editor shows of a block type: its name, its fields and its outcomes. Runs never read
it. -/
structure Description where
  name : String := ""
  category : String := ""
  description : String := ""
  fields : Bindings FieldDescription := []
  /-- The outcomes in display order; a label may occur more than once. -/
  outs : List (String × OutDescription) := []
  deriving Inhabited

/-- Binds a name in a list that is in increasing order of names. -/
def Bindings.insertSorted {α : Type} : Bindings α → String → α → Bindings α
  | [], name, value => [(name, value)]
  | (key, old) :: rest, name, value =>
    if name < key then (name, value) :: (key, old) :: rest
    else if key = name then (key, value) :: rest
    else (key, old) :: insertSorted rest name value

namespace Description

/-- Adds a field, or replaces the one with its key. -/
def withField (d : Description) (key : String) (field : FieldDescription) : Description :=
  { d with fields := d.fields.insertSorted key field }

def withOut (d : Description) (label : String) (out : OutDescription) : Description :=
  { d with outs := d.outs ++ [(label, out)] }

/-- Adds the outcomes that most block types have. -/
def withDefaultOuts (d : Description) : Description :=
  (d.withOut "success" ⟨"Success", "The block executed successfully.", .success⟩).withOut "error"
    ⟨"Error", "The block wasn't executed successfully.", .error⟩

def labels (d : Description) : List String := d.outs.map Prod.fst

end Description

/-- A text, or `null` where there is none. -/
def Json.ofText? : Option String → Json
  | some s => .text s
  | none => .null

def FieldDescription.toJson (field : FieldDescription) : Json :=
  .object [("name", .text field.name), ("desc", .text field.desc),
    ("default", Json.ofText? field.default?), ("init", Json.ofText? field.initial?),
    ("type", .text field.type), ("control", Json.ofText? field.control?)]

def OutDescription.toJson (out : OutDescription) : Json :=
  .object [("name", .text out.name), ("description", .text out.description),
    ("style", .text out.style.name)]

def Description.toJson (d : Description) : Json :=
  .object [("name", .text d.name), ("description", .text d.description),
    ("category", .text d.category),
    ("fields", .object (d.fields.map fun field => (field.1, field.2.toJson))),
    ("outs", .list (d.outs.map fun out => .list [.text out.1, out.2.toJson]))]

end Workflow
