import Workflow.Json.Reader.Number
import Workflow.Json.Reader.Text

namespace Workflow.Json.Reader

/-- Reads the items of a list up to its closing bracket. `limit` bounds their number. -/
def items {α : Type} (item : Reader α) :
    (limit : Nat) → (first : Bool) → List Char → Except Fault (List α × List Char)
  | 0, _, s => .error (faultAt .endInList s)
  | limit + 1, first, s =>
    match nextItem first s with
    | .error fault => .error fault
    | .ok none =>
      match closeList s with
      | .error fault => .error fault
      | .ok rest => .ok ([], rest)
    | .ok (some start) =>
      match item start with
      | .error fault => .error fault
      | .ok (value, rest) =>
        match items item limit false rest with
        | .error fault => .error fault
        | .ok (values, rest) => .ok (value :: values, rest)

/-- Reads the members of an object up to its closing brace and binds them one after the other, so
that a value of a member that occurs twice replaces the earlier one and takes its place. `limit`
bounds their number. -/
def members {α : Type} (value : Reader α) :
    (limit : Nat) → (first : Bool) → Bindings α → List Char →
      Except Fault (Bindings α × List Char)
  | 0, _, _, s => .error (faultAt .endInObject s)
  | limit + 1, first, bound, s =>
    match nextKey first s with
    | .error fault => .error fault
    | .ok none =>
      match closeObject s with
      | .error fault => .error fault
      | .ok rest => .ok (bound, rest)
    | .ok (some start) =>
      match text start with
      | .error fault => .error fault
      | .ok (key, rest) =>
        match colon rest with
        | .error fault => .error fault
        | .ok rest =>
          match value rest with
          | .error fault => .error fault
          | .ok (found, rest) => members value limit false (Bindings.insert bound key found) rest

/-- Reads the items of a list behind its opening bracket. Each item but the first has a comma of its
own, so the text is longer than the list. -/
def listOf {α : Type} (item : Reader α) : Reader (List α) :=
  fun s => items item (s.length + 1) true s

/-- Reads the members of an object behind its opening brace. -/
def objectOf {α : Type} (value : Reader α) : Reader (Bindings α) :=
  fun s => members value (s.length + 1) true [] s

/-- Reads a value that is neither a list nor an object. -/
def scalar (s : List Char) : Except Fault (Json × List Char) :=
  match s with
  | [] => .error (faultAt .endInValue [])
  | c :: rest =>
    if c = 'n' then (word ['u', 'l', 'l'] rest).map (Json.null, ·)
    else if c = 't' then (word ['r', 'u', 'e'] rest).map (Json.bool true, ·)
    else if c = 'f' then (word ['a', 'l', 's', 'e'] rest).map (Json.bool false, ·)
    else if c = '"' then (text rest).map fun read => (Json.text read.1, read.2)
    else if c = '-' ∨ isDigit c then number (c :: rest)
    else .error (faultAt .expectedValue (c :: rest))

/-- Reads a value in which at most `depth` lists and objects may nest. -/
def value (depth : Nat) : Reader Json := fun s =>
  match skipSpace s with
  | '[' :: rest =>
    match depth with
    | 0 => .error (faultAt .nestedTooDeep ('[' :: rest))
    | depth + 1 =>
      match listOf (value depth) rest with
      | .error fault => .error fault
      | .ok (items, rest) => .ok (.list items, rest)
  | '{' :: rest =>
    match depth with
    | 0 => .error (faultAt .nestedTooDeep ('{' :: rest))
    | depth + 1 =>
      match objectOf (value depth) rest with
      | .error fault => .error fault
      | .ok (fields, rest) => .ok (.object fields, rest)
  | rest => scalar rest

end Workflow.Json.Reader

namespace Workflow.Json

/-- How many lists and objects may nest in a text. -/
def depthLimit : Nat := 127

def parse (text : String) : Except Error Json := Reader.readAll (Reader.value depthLimit) text

end Workflow.Json
