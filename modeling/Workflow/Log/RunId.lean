import Workflow.Json.Reader.Text
import Workflow.Text.Pieces

namespace Workflow

/-- The id of a run, a number of 128 bits, by its hexadecimal digits in lower case. -/
structure RunId where
  digits : List Char
  deriving DecidableEq, Repr

namespace RunId

def groups : List Nat := [8, 4, 4, 4, 12]

def digitCount : Nat := 32

/-- Cuts a list into pieces of the given lengths. -/
def cut : List Nat → List Char → List (List Char)
  | [], _ => []
  | n :: more, s => s.take n :: cut more (s.drop n)

/-- The written form of a run id: its digits in five groups. -/
def write (id : RunId) : String :=
  String.ofList (List.intercalate ['-'] (cut groups id.digits))

def isHex (c : Char) : Bool := (Json.Reader.hexValue? c).isSome

/-- Why a text is no run id. -/
inductive Fault where
  | badCharacter (c : Char) (place : Nat)
  | badLength (length : Nat)
  | badCount (count : Nat)
  | badGroup (group expected length : Nat)
  deriving DecidableEq, Repr

def Fault.message : Fault → String
  | .badCharacter c place =>
    "invalid character: found `" ++ String.singleton c ++ "` at " ++ toString place
  | .badLength length => "invalid length: found " ++ toString length
  | .badCount count => "invalid group count: expected 5, found " ++ toString count
  | .badGroup group expected length =>
    "invalid group length in group " ++ toString group ++ ": expected " ++ toString expected ++
      ", found " ++ toString length

/-- The scheme of a resource name that is a run id. -/
def scheme : List Char := ['u', 'r', 'n', ':', 'u', 'u', 'i', 'd', ':']

/-- The text behind the scheme, in letters of any case. -/
def afterScheme? (s : List Char) : Option (List Char) :=
  if (s.take scheme.length).map Char.toLower = scheme then some (s.drop scheme.length) else none

/-- The text between braces. -/
def insideBraces? (s : List Char) : Option (List Char) :=
  match s with
  | '{' :: rest => if rest.getLast? = some '}' then some rest.dropLast else none
  | _ => none

/-- The first character that belongs in no run id, with its distance in bytes. -/
def strange? (start : Nat) : List Char → Option (Char × Nat)
  | [] => none
  | c :: rest =>
    if isHex c || c == '-' then strange? (start + c.utf8Size) rest else some (c, start)

/-- The length in bytes of the longest written form: that of a resource name. -/
def longest : Nat := 45

/-- The text between braces or behind the scheme, and where it starts. -/
def unwrap? (s : List Char) : Option (List Char × Nat) :=
  match insideBraces? s with
  | some inner => some (inner, 1)
  | none => (afterScheme? s).map (·, scheme.length)

/-- The size in bytes of five groups with hyphens between them. -/
def groupedSize : Nat := digitCount + 4

/-- The part of a text that has the size of five groups with hyphens: all of it, or what is between
braces or behind the scheme. -/
def sized? (s : List Char) : Option (List Char) :=
  if Json.byteLength s = groupedSize then some s
  else
    match unwrap? s with
    | some (inner, _) => if Json.byteLength inner = groupedSize then some inner else none
    | none => none

/-- What is wrong with the groups of a text that has `total` bytes. The last group is taken to reach
to the end of the whole text, braces and scheme included. -/
def groupFault (total : Nat) :
    (group start : Nat) → (expected : List Nat) → (found : List (List Char)) → Fault
  | group, start, n :: m :: more, piece :: pieces =>
    if piece.length = n then groupFault total (group + 1) (start + n + 1) (m :: more) pieces
    else .badGroup group n piece.length
  | group, start, expected, _ => .badGroup group (expected.headD 0) (total - start)

/-- What is wrong with a text that starts at a place of a text of `total` bytes. A text that may do
without hyphens and has none must be of a wrong length. -/
def faultIn (total start : Nat) (mayBePlain : Bool) (s : List Char) : Fault :=
  let pieces := Text.pieces '-' s
  match strange? start s with
  | some (c, place) => .badCharacter c place
  | none =>
    if mayBePlain ∧ pieces.length = 1 then .badLength total
    else if pieces.length ≠ groups.length then .badCount pieces.length
    else groupFault total 0 0 groups pieces

/-- What is wrong with a text that is no run id. Places in a part of the right size count from its
start, other places from the start of the whole text. -/
def diagnose (s : List Char) : Fault :=
  let total := Json.byteLength s
  if longest < total then .badLength total
  else
    match sized? s with
    | some part => faultIn groupedSize 0 false part
    | none =>
      match unwrap? s with
      | some (inner, start) => faultIn total start false inner
      | none => faultIn total 0 true s

/-- The digits of five groups with hyphens between them. -/
def grouped? (s : List Char) : Option (List Char) :=
  let pieces := Text.pieces '-' s
  if pieces.map List.length = groups ∧ pieces.flatten.all isHex then some pieces.flatten else none

/-- The digits of a text that is a run id. Only a bare one may do without hyphens. -/
def digits? (s : List Char) : Option (List Char) :=
  match sized? s with
  | some part => grouped? part
  | none => if s.length = digitCount ∧ s.all isHex then some s else none

/-- Reads a run id, or says what is wrong with it. -/
def read (text : String) : Except Fault RunId :=
  match digits? text.toList with
  | some digits => .ok ⟨digits.map Char.toLower⟩
  | none => .error (diagnose text.toList)

end RunId

end Workflow
