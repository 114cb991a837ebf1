import Workflow.Json.Fault

namespace Workflow.Json

/-- Takes the text ahead; gives a value and the text after it, or a fault. -/
abbrev Reader (α : Type) := List Char → Except Fault (α × List Char)

namespace Reader

/-- The four characters that may stand between two tokens. -/
def isSpace (c : Char) : Bool := c == ' ' || c == '\t' || c == '\n' || c == '\r'

/-- The text ahead without the spaces in front. -/
def skipSpace (s : List Char) : List Char := s.dropWhile isSpace

/-- A fault at the first byte ahead, or at the end of the text if nothing is ahead. -/
def faultAt (cause : Cause) (s : List Char) : Fault := ⟨cause, s, 1⟩

/-- A fault before the text ahead. -/
def faultBefore (cause : Cause) (s : List Char) : Fault := ⟨cause, s, 0⟩

/-- Reads the rest of a word whose first letter is read already. -/
def word : List Char → List Char → Except Fault (List Char)
  | [], s => .ok s
  | _ :: _, [] => .error (faultAt .endInValue [])
  | letter :: letters, c :: rest =>
    if c = letter then word letters rest else .error (faultAt .expectedWord (c :: rest))

/-- The start of the next item of a list, or nothing in front of the closing bracket. `first` tells
whether the opening bracket has just been read. -/
def nextItem (first : Bool) (s : List Char) : Except Fault (Option (List Char)) :=
  match skipSpace s with
  | [] => .error (faultAt .endInList [])
  | ']' :: _ => .ok none
  | c :: rest =>
    if first then .ok (some (c :: rest))
    else if c = ',' then
      match skipSpace rest with
      | [] => .error (faultAt .endInValue [])
      | ']' :: more => .error (faultAt .trailingComma (']' :: more))
      | more => .ok (some more)
    else .error (faultAt .expectedCommaInList (c :: rest))

/-- The text behind the quote that opens the next key of an object, or nothing in front of the
closing brace. -/
def nextKey (first : Bool) (s : List Char) : Except Fault (Option (List Char)) :=
  match skipSpace s with
  | [] => .error (faultAt .endInObject [])
  | '}' :: _ => .ok none
  | c :: rest =>
    if first then
      if c = '"' then .ok (some rest) else .error (faultAt .expectedKey (c :: rest))
    else if c = ',' then
      match skipSpace rest with
      | [] => .error (faultAt .endInValue [])
      | '"' :: more => .ok (some more)
      | '}' :: more => .error (faultAt .trailingComma ('}' :: more))
      | more => .error (faultAt .expectedKey more)
    else .error (faultAt .expectedCommaInObject (c :: rest))

/-- The text behind the bracket that closes a list. -/
def closeList (s : List Char) : Except Fault (List Char) :=
  match skipSpace s with
  | [] => .error (faultAt .endInList [])
  | ']' :: rest => .ok rest
  | ',' :: rest =>
    match skipSpace rest with
    | ']' :: more => .error (faultAt .trailingComma (']' :: more))
    | more => .error (faultAt .trailingCharacters more)
  | rest => .error (faultAt .trailingCharacters rest)

/-- The text behind the brace that closes an object. -/
def closeObject (s : List Char) : Except Fault (List Char) :=
  match skipSpace s with
  | [] => .error (faultAt .endInObject [])
  | '}' :: rest => .ok rest
  | ',' :: rest => .error (faultAt .trailingComma (',' :: rest))
  | rest => .error (faultAt .trailingCharacters rest)

/-- The text behind the colon between a key and its value. -/
def colon (s : List Char) : Except Fault (List Char) :=
  match skipSpace s with
  | [] => .error (faultAt .endInObject [])
  | ':' :: rest => .ok rest
  | rest => .error (faultAt .expectedColon rest)

/-- Reads a whole text, behind which only spaces may follow. -/
def readAll {α : Type} (reader : Reader α) (text : String) : Except Error α :=
  let s := text.toList
  let outcome : Except Fault α := do
    let (value, rest) ← reader s
    match skipSpace rest with
    | [] => .ok value
    | more => .error (faultAt .trailingCharacters more)
  outcome.mapError fun fault => ⟨fault.cause, fault.position s⟩

end Reader

end Workflow.Json
