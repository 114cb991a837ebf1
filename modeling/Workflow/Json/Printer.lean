import Workflow.Json.Number
import Workflow.Json.Value

namespace Workflow.Json

def hexDigit (n : Nat) : Char := Nat.digitChar n

/-- The written form of one character of a text. Only the quote, the backslash and the control
characters are escaped. -/
def writeChar (c : Char) : List Char :=
  if c = '"' then ['\\', '"']
  else if c = '\\' then ['\\', '\\']
  else if c = '\x08' then ['\\', 'b']
  else if c = '\x0c' then ['\\', 'f']
  else if c = '\n' then ['\\', 'n']
  else if c = '\r' then ['\\', 'r']
  else if c = '\t' then ['\\', 't']
  else if c.toNat < 0x20 then
    ['\\', 'u', '0', '0', hexDigit (c.toNat / 16), hexDigit (c.toNat % 16)]
  else [c]

/-- The written form of a text, quotes included. -/
def writeText (s : String) : List Char := '"' :: s.toList.flatMap writeChar ++ ['"']

mutual

/-- The compact written form. -/
def write : Json → List Char
  | .null => ['n', 'u', 'l', 'l']
  | .bool true => ['t', 'r', 'u', 'e']
  | .bool false => ['f', 'a', 'l', 's', 'e']
  | .int n => writeInt n
  | .float x => writeFloat x
  | .text s => writeText s
  | .list [] => ['[', ']']
  | .list (item :: rest) => '[' :: write item ++ writeItems rest
  | .object [] => ['{', '}']
  | .object ((key, value) :: rest) =>
    '{' :: writeText key ++ ':' :: write value ++ writeFields rest
  termination_by structural value => value

/-- The items after the first one and the closing bracket. -/
def writeItems : List Json → List Char
  | [] => [']']
  | item :: rest => ',' :: write item ++ writeItems rest
  termination_by structural items => items

/-- The members after the first one and the closing brace. -/
def writeFields : List (String × Json) → List Char
  | [] => ['}']
  | (key, value) :: rest => ',' :: writeText key ++ ':' :: write value ++ writeFields rest
  termination_by structural fields => fields

end

/-- The compact text of a value, without any blank. -/
def compact (value : Json) : String := String.ofList (write value)

/-- A line break and the indent of the given level. -/
def lineAt (level : Nat) : List Char := '\n' :: List.replicate (2 * level) ' '

mutual

/-- The written form over several lines, inside `level` lists and objects. Empty lists and objects
stay on one line. -/
def spread (level : Nat) : Json → List Char
  | .list [] => ['[', ']']
  | .list (item :: rest) =>
    '[' :: lineAt (level + 1) ++ spread (level + 1) item ++ spreadItems level rest
  | .object [] => ['{', '}']
  | .object ((key, value) :: rest) =>
    '{' :: lineAt (level + 1) ++ writeText key ++ ':' :: ' ' :: spread (level + 1) value ++
      spreadFields level rest
  | .null => ['n', 'u', 'l', 'l']
  | .bool true => ['t', 'r', 'u', 'e']
  | .bool false => ['f', 'a', 'l', 's', 'e']
  | .int n => writeInt n
  | .float x => writeFloat x
  | .text s => writeText s
  termination_by structural value => value

/-- The items after the first one and the closing bracket on a line of its own. -/
def spreadItems (level : Nat) : List Json → List Char
  | [] => lineAt level ++ [']']
  | item :: rest =>
    ',' :: lineAt (level + 1) ++ spread (level + 1) item ++ spreadItems level rest
  termination_by structural items => items

/-- The members after the first one and the closing brace on a line of its own. -/
def spreadFields (level : Nat) : List (String × Json) → List Char
  | [] => lineAt level ++ ['}']
  | (key, value) :: rest =>
    ',' :: lineAt (level + 1) ++ writeText key ++ ':' :: ' ' :: spread (level + 1) value ++
      spreadFields level rest
  termination_by structural fields => fields

end

/-- The text of a value over several lines, with an indent of two spaces for each level. -/
def pretty (value : Json) : String := String.ofList (spread 0 value)

/-- The text that stands for a value inside other text: nothing for `null`, a text as it is, and
the compact form of anything else. -/
def plain : Json → String
  | .null => ""
  | .text s => s
  | value => compact value

end Workflow.Json
