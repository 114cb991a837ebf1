import Workflow.Json.Reader.Value

namespace Workflow.Json.Reader

/-- Passes over the digits of an exponent behind its letter. -/
def skipExponent (s : List Char) : Except Fault (List Char) :=
  let s :=
    match s with
    | '+' :: rest => rest
    | '-' :: rest => rest
    | rest => rest
  if digitAhead s then .ok (s.dropWhile isDigit) else .error (faultAt .invalidNumber s)

/-- Passes over an exponent, if one is ahead. -/
def skipOptionalExponent (s : List Char) : Except Fault (List Char) :=
  match s with
  | c :: rest => if c = 'e' ∨ c = 'E' then skipExponent rest else .ok (c :: rest)
  | [] => .ok []

/-- Passes over what may follow the whole part of a number. -/
def skipAfterWhole (s : List Char) : Except Fault (List Char) :=
  match s with
  | '.' :: rest =>
    if digitAhead rest then skipOptionalExponent (rest.dropWhile isDigit)
    else .error (faultAt .invalidNumber rest)
  | rest => skipOptionalExponent rest

/-- Passes over a number behind its sign. -/
def skipUnsigned (s : List Char) : Except Fault (List Char) :=
  match s with
  | '0' :: rest =>
    if digitAhead rest then .error (faultAt .invalidNumber rest) else skipAfterWhole rest
  | rest =>
    if digitAhead rest then skipAfterWhole (rest.dropWhile isDigit)
    else .error (faultAt .invalidNumber rest)

/-- Passes over the characters of a text and its closing quote. Surrogates are not paired. -/
def skipText (s : List Char) : Except Fault (List Char) :=
  match s with
  | [] => .error (faultBefore .endInText [])
  | c :: rest =>
    if c = '"' then .ok rest
    else if c = '\\' then
      match rest with
      | [] => .error (faultBefore .endInText [])
      | d :: more =>
        if (letterEscape? d).isSome then skipText more
        else if d = 'u' then
          match _h : hexUnit more with
          | .error fault => .error fault
          | .ok (_, after) => skipText after
        else .error (faultAt .invalidEscape (d :: more))
    else if c.toNat < 0x20 then .error (faultBefore .controlCharacter (c :: rest))
    else skipText rest
termination_by s.length
decreasing_by
  · simp only [List.length_cons]
    omega
  · have := hexUnit_shorter _h
    simp only [List.length_cons]
    omega
  · simp

/-- Passes over the items of a list up to its closing bracket. `needed` tells that a comma has just
been passed. -/
def skipItems (skip : List Char → Except Fault (List Char)) :
    (limit : Nat) → List Char → Except Fault (List Char)
  | 0, s => .error (faultAt .endInList s)
  | limit + 1, s => do
    let s ← skip s
    match skipSpace s with
    | [] => .error (faultAt .endInList [])
    | ',' :: rest => skipItems skip limit rest
    | ']' :: rest => .ok rest
    | rest => .error (faultAt .expectedCommaInList rest)

/-- Passes over the members of an object up to its closing brace. -/
def skipMembers (skip : List Char → Except Fault (List Char)) :
    (limit : Nat) → List Char → Except Fault (List Char)
  | 0, s => .error (faultAt .endInObject s)
  | limit + 1, s => do
    let s ← match skipSpace s with
      | [] => .error (faultAt .endInObject [])
      | '"' :: rest => skipText rest
      | rest => .error (faultAt .expectedKey rest)
    let s ← colon s
    let s ← skip s
    match skipSpace s with
    | [] => .error (faultAt .endInObject [])
    | ',' :: rest => skipMembers skip limit rest
    | '}' :: rest => .ok rest
    | rest => .error (faultAt .expectedCommaInObject rest)

/-- Passes over a value. `depth` bounds how deeply it nests. -/
def skipValue : (depth : Nat) → List Char → Except Fault (List Char)
  | 0, s => .error (faultAt .endInValue s)
  | depth + 1, s =>
    match skipSpace s with
    | [] => .error (faultAt .endInValue [])
    | c :: rest =>
      if c = '[' then
        match skipSpace rest with
        | [] => .error (faultAt .endInList [])
        | ']' :: rest => .ok rest
        | rest => skipItems (skipValue depth) (rest.length + 1) rest
      else if c = '{' then
        match skipSpace rest with
        | [] => .error (faultAt .endInObject [])
        | '}' :: rest => .ok rest
        | rest => skipMembers (skipValue depth) (rest.length + 1) rest
      else if c = 'n' then word ['u', 'l', 'l'] rest
      else if c = 't' then word ['r', 'u', 'e'] rest
      else if c = 'f' then word ['a', 'l', 's', 'e'] rest
      else if c = '"' then skipText rest
      else if c = '-' then skipUnsigned rest
      else if isDigit c then skipUnsigned (c :: rest)
      else .error (faultAt .expectedValue (c :: rest))

/-- Passes over a value that nobody asked for; it cannot nest deeper than its text is long. Only
brackets, quotes and number forms are checked, so a number may have any size. -/
def skipAny (s : List Char) : Except Fault (List Char) := skipValue (s.length + 1) s

end Workflow.Json.Reader
