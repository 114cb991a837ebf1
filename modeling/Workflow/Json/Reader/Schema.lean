import Workflow.Json.Printer
import Workflow.Json.Reader.Skip
import Workflow.Text.Quoted

namespace Workflow.Json.Reader

/-- How a value of an unwanted type is described. -/
def describe : Json → String
  | .null => "null"
  | .bool b => "boolean `" ++ (if b then "true" else "false") ++ "`"
  | .int n => "integer `" ++ String.ofList (writeInt n) ++ "`"
  | .float x => "floating point `" ++ String.ofList (writeFloat x) ++ "`"
  | .text s => "string " ++ Text.quoted s
  | .list _ => "sequence"
  | .object _ => "map"

/-- The fault for a value of an unwanted type. Lists and objects are not read, other values are. -/
def unwanted (wanted : String) (s : List Char) : Fault :=
  match s with
  | '[' :: _ => faultBefore (.wrongType "sequence" wanted) s
  | '{' :: _ => faultBefore (.wrongType "map" wanted) s
  | _ =>
    match scalar s with
    | .error fault => fault
    | .ok (found, rest) => faultBefore (.wrongType (describe found) wanted) rest

/-- Reads a quoted text; `wanted` names it where something else is found. -/
def textAs (wanted : String) : Reader String := fun s =>
  match skipSpace s with
  | [] => .error (faultAt .endInValue [])
  | '"' :: rest => text rest
  | rest => .error (unwanted wanted rest)

def plainText : Reader String := textAs "a string"

/-- Reads a value that carries nothing: `null`. -/
def nothing (s : List Char) : Except Fault (List Char) :=
  match skipSpace s with
  | [] => .error (faultAt .endInValue [])
  | 'n' :: rest => word ['u', 'l', 'l'] rest
  | rest => .error (unwanted "unit" rest)

/-- Reads `null` as nothing and anything else with the given reader. -/
def optional {α : Type} (reader : Reader α) : Reader (Option α) := fun s =>
  match skipSpace s with
  | 'n' :: rest => (word ['u', 'l', 'l'] rest).map (none, ·)
  | rest => (reader rest).map fun read => (some read.1, read.2)

/-- Reads a floating-point number; a whole number counts as one. -/
def float : Reader Float := fun s =>
  match skipSpace s with
  | [] => .error (faultAt .endInValue [])
  | c :: rest =>
    if c = '-' ∨ isDigit c then
      match number (c :: rest) with
      | .ok (.float x, rest) => .ok (x, rest)
      | .ok (.int n, rest) => .ok (Float.ofInt n, rest)
      | .ok (found, rest) => .error (faultBefore (.wrongType (describe found) "f64") rest)
      | .error fault => .error fault
    else .error (unwanted "f64" (c :: rest))

/-- Reads a list whose items are read by `item`, in which one level less may nest. -/
def sequence {α : Type} (item : Nat → Reader α) (depth : Nat) : Reader (List α) := fun s =>
  match skipSpace s with
  | [] => .error (faultAt .endInValue [])
  | '[' :: rest =>
    match depth with
    | 0 => .error (faultAt .nestedTooDeep ('[' :: rest))
    | depth + 1 => listOf (item depth) rest
  | rest => .error (unwanted "a sequence" rest)

/-- Reads an object with values of any kind. -/
def mapping (depth : Nat) : Reader (Bindings Json) := fun s =>
  match skipSpace s with
  | [] => .error (faultAt .endInValue [])
  | '{' :: rest =>
    match depth with
    | 0 => .error (faultAt .nestedTooDeep ('{' :: rest))
    | depth + 1 => objectOf (value depth) rest
  | rest => .error (unwanted "a map" rest)

end Workflow.Json.Reader

namespace Workflow.Json

open Reader

/-- A field of a record that is collected in a draft of type `σ`. -/
structure Field (σ : Type) where
  name : String
  /-- Whether the draft has the field already. -/
  present : σ → Bool
  /-- Reads the field's value into the draft. -/
  read : Nat → σ → Reader σ
  /-- Whether a record that is written as a list may end before this field. -/
  mayEnd : Bool

/-- A kind of record: its name, its fields in order, and how a draft becomes a record. A record is
written as an object, whose unknown members are passed over, or as a list of its fields in their
order. -/
structure Schema (σ α : Type) where
  title : String
  fields : List (Field σ)
  empty : σ
  /-- The finished record, or the name of the first field that is missing. -/
  finish : σ → Except String α

namespace Schema

variable {σ α : Type}

def lengthTitle (schema : Schema σ α) : String :=
  let count := schema.fields.length
  schema.title ++ " with " ++ toString count ++ (if count = 1 then " element" else " elements")

/-- The fault for a field that occurs twice. An object that ends there is closed first. -/
def repeated (name : String) (s : List Char) : Fault :=
  match skipSpace s with
  | '}' :: rest => faultBefore (.duplicateField name) rest
  | rest => faultBefore (.duplicateField name) rest

/-- Reads the members of a record that is written as an object. `limit` bounds their number. -/
def members (schema : Schema σ α) (depth : Nat) :
    (limit : Nat) → (first : Bool) → σ → List Char → Except Fault (α × List Char)
  | 0, _, _, s => .error (faultAt .endInObject s)
  | limit + 1, first, draft, s => do
    match ← nextKey first s with
    | none =>
      let rest ← closeObject s
      match schema.finish draft with
      | .ok made => .ok (made, rest)
      | .error name => .error (faultBefore (.missingField name) rest)
    | some start =>
      let (key, rest) ← Reader.text start
      match schema.fields.find? (·.name == key) with
      | none =>
        let rest ← colon rest
        let rest ← skipAny rest
        members schema depth limit false draft rest
      | some field =>
        if field.present draft then .error (repeated key rest)
        else
          let rest ← colon rest
          let (draft, rest) ← field.read depth draft rest
          members schema depth limit false draft rest

/-- Reads the fields of a record that is written as a list, of which `count` are read already. -/
def elements (schema : Schema σ α) (depth : Nat) :
    List (Field σ) → (count : Nat) → σ → List Char → Except Fault (α × List Char)
  | [], _, draft, s => do
    let rest ← closeList s
    match schema.finish draft with
    | .ok made => .ok (made, rest)
    | .error name => .error (faultBefore (.missingField name) rest)
  | field :: fields, count, draft, s => do
    match ← nextItem (count == 0) s with
    | none =>
      if field.mayEnd then elements schema depth fields (count + 1) draft s
      else
        let rest ← closeList s
        .error (faultBefore (.wrongLength count schema.lengthTitle) rest)
    | some start =>
      let (draft, rest) ← field.read depth draft start
      elements schema depth fields (count + 1) draft rest

def read (schema : Schema σ α) (depth : Nat) : Reader α := fun s =>
  match skipSpace s with
  | [] => .error (faultAt .endInValue [])
  | '{' :: rest =>
    match depth with
    | 0 => .error (faultAt .nestedTooDeep ('{' :: rest))
    | depth + 1 => members schema depth (rest.length + 1) true schema.empty rest
  | '[' :: rest =>
    match depth with
    | 0 => .error (faultAt .nestedTooDeep ('[' :: rest))
    | depth + 1 => elements schema depth schema.fields 0 schema.empty rest
  | rest => .error (unwanted schema.title rest)

/-- Reads a whole text as one record. -/
def parse (schema : Schema σ α) (text : String) : Except Error α :=
  readAll (schema.read depthLimit) text

end Schema

end Workflow.Json
