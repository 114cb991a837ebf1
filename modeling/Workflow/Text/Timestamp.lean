import Workflow.Text.Blank

namespace Workflow.Text

/-- A point in universal time. A leap second is second 60. -/
structure Timestamp where
  year : Int
  month : Nat
  day : Nat
  hour : Nat
  minute : Nat
  second : Nat
  nanosecond : Nat
  deriving DecidableEq, Repr

namespace Timestamp

/-- Why a text is not a point in time. -/
inductive Fault where
  | tooShort
  | tooLong
  | invalid
  | outOfRange
  | impossible
  deriving DecidableEq, Repr

def Fault.message : Fault → String
  | .tooShort => "premature end of input"
  | .tooLong => "trailing input"
  | .invalid => "input contains invalid characters"
  | .outOfRange => "input is out of range"
  | .impossible => "no possible date and time matching input"

def daysIn (year : Int) (month : Nat) : Nat :=
  if month = 2 then
    if year % 4 = 0 ∧ (year % 100 ≠ 0 ∨ year % 400 = 0) then 29 else 28
  else if month = 4 ∨ month = 6 ∨ month = 9 ∨ month = 11 then 30
  else 31

def nextDay (t : Timestamp) : Timestamp :=
  if t.day < daysIn t.year t.month then { t with day := t.day + 1 }
  else if t.month < 12 then { t with month := t.month + 1, day := 1 }
  else { t with year := t.year + 1, month := 1, day := 1 }

def previousDay (t : Timestamp) : Timestamp :=
  if 1 < t.day then { t with day := t.day - 1 }
  else if 1 < t.month then
    { t with month := t.month - 1, day := daysIn t.year (t.month - 1) }
  else { t with year := t.year - 1, month := 12, day := 31 }

/-- The point in universal time of a local time that is `minutes` ahead of it. -/
def toUniversal (t : Timestamp) (minutes : Int) : Timestamp :=
  let total := (t.hour * 60 + t.minute : Int) - minutes
  let shifted := { t with hour := (total % 1440 / 60).toNat, minute := (total % 60).toNat }
  if total < 0 then shifted.previousDay
  else if 1440 ≤ total then shifted.nextDay
  else shifted

def isDigit (c : Char) : Bool := '0' ≤ c && c ≤ '9'

/-- Reads at most `width` more digits of a number, which has to stay below 2⁶³. -/
def moreDigits : (width : Nat) → Nat → List Char → Except Fault (Nat × List Char)
  | _, n, [] => .ok (n, [])
  | 0, n, s => .ok (n, s)
  | width + 1, n, c :: rest =>
    if isDigit c then
      let n := n * 10 + (c.toNat - '0'.toNat)
      if n < UInt64.size / 2 then moreDigits width n rest else .error .outOfRange
    else .ok (n, c :: rest)

/-- Reads one to `width` digits. -/
def digits (width : Nat) (s : List Char) : Except Fault (Nat × List Char) :=
  match s with
  | [] => .error .tooShort
  | c :: _ => if isDigit c then moreDigits width 0 s else .error .invalid

def firstYear : Int := -262143

def lastYear : Int := 262142

def hasYear (year : Int) : Bool := firstYear ≤ year && year ≤ lastYear

/-- Reads a year, behind blanks. A year with a sign may have any number of digits, others have four
at most. A year of more than 32 bits is refused at once. -/
def readYear (s : List Char) : Except Fault (Int × List Char) := do
  let (year, rest) ← match trimStart s with
    | '-' :: rest => (digits rest.length rest).map fun read => (-(read.1 : Int), read.2)
    | '+' :: rest => (digits rest.length rest).map fun read => ((read.1 : Int), read.2)
    | s => (digits 4 s).map fun read => ((read.1 : Int), read.2)
  if -2147483648 ≤ year ∧ year ≤ 2147483647 then .ok (year, rest) else .error .outOfRange

/-- Reads a number between two bounds, behind blanks. -/
def bounded (width low high : Nat) (s : List Char) : Except Fault (Nat × List Char) := do
  let (n, rest) ← digits width (trimStart s)
  if low ≤ n ∧ n ≤ high then .ok (n, rest) else .error .outOfRange

/-- Reads a mark, behind blanks. -/
def mark (c : Char) (s : List Char) : Except Fault (List Char) :=
  match trimStart s with
  | [] => .error .tooShort
  | d :: rest => if d = c then .ok rest else .error .invalid

/-- Reads the fraction of a second, if there is one. Digits behind the ninth do not count. -/
def fraction (s : List Char) : Except Fault (Nat × List Char) :=
  match s with
  | '.' :: rest => do
    let (n, after) ← digits 9 rest
    let taken := rest.length - after.length
    .ok (n * Nat.pow 10 (9 - taken), after.dropWhile isDigit)
  | _ => .ok (0, s)

/-- Reads two digits. What is shorter than two bytes is too short. -/
def twoDigits (s : List Char) : Except Fault (Nat × List Char) :=
  match s with
  | [] => .error .tooShort
  | [c] => if c.utf8Size < 2 then .error .tooShort else .error .invalid
  | a :: b :: rest =>
    if isDigit a && isDigit b then
      .ok ((a.toNat - '0'.toNat) * 10 + (b.toNat - '0'.toNat), rest)
    else .error .invalid

/-- The text behind the name of universal time, in letters of any case. -/
def afterUniversal? : List Char → Option (List Char)
  | u :: t :: c :: rest =>
    if u.toLower = 'u' ∧ t.toLower = 't' ∧ c.toLower = 'c' then some rest
    else if u = 'Z' ∨ u = 'z' then some (t :: c :: rest)
    else none
  | u :: rest => if u = 'Z' ∨ u = 'z' then some rest else none
  | [] => none

/-- Whether a local time is behind universal time, by the sign of its offset. There are two minus
signs. -/
def isBehind? (c : Char) : Option Bool :=
  if c = '+' then some false
  else if c = '-' ∨ c = '\u2212' then some true
  else none

/-- Reads hours and minutes, with colons and blanks between them. -/
def hoursMinutes (s : List Char) : Except Fault (Nat × List Char) := do
  let (hours, rest) ← twoDigits s
  let (minutes, rest) ← twoDigits (rest.dropWhile fun c => c == ':' || isBlank c)
  if 59 < minutes then .error .outOfRange else .ok (hours * 60 + minutes, rest)

/-- Reads the offset of a local time, in minutes. -/
def offset (s : List Char) : Except Fault (Int × List Char) :=
  match afterUniversal? s with
  | some rest => .ok (0, rest)
  | none =>
    match s with
    | [] => .error .tooShort
    | c :: rest =>
      match isBehind? c with
      | none => .error .invalid
      | some behind =>
        (hoursMinutes rest).map fun read =>
          (if behind then -(read.1 : Int) else (read.1 : Int), read.2)

/-- The point in time of a local date and time. An offset is less than a day. -/
def ofLocal (t : Timestamp) (minutes : Int) : Except Fault Timestamp :=
  if !hasYear t.year || daysIn t.year t.month < t.day || 1440 ≤ minutes.natAbs then
    .error .outOfRange
  else
    let universal := t.toUniversal minutes
    if hasYear universal.year then .ok universal else .error .impossible

/-- Reads a point in time. A local time may have any offset of less than a day. -/
def read (text : String) : Except Fault Timestamp := do
  let (year, s) ← readYear text.toList
  let s ← mark '-' s
  let (month, s) ← bounded 2 1 12 s
  let s ← mark '-' s
  let (day, s) ← bounded 2 1 31 s
  let s ← match s with
    | [] => .error .tooShort
    | c :: rest => if c = 'T' ∨ c = 't' ∨ c = ' ' then .ok rest else .error .invalid
  let (hour, s) ← bounded 2 0 23 s
  let s ← mark ':' s
  let (minute, s) ← bounded 2 0 59 s
  let s ← mark ':' s
  let (second, s) ← bounded 2 0 60 s
  let (nanosecond, s) ← fraction s
  let (minutes, s) ← offset (trimStart s)
  if !(trimStart s).isEmpty then .error .tooLong
  else ofLocal ⟨year, month, day, hour, minute, second, nanosecond⟩ minutes

/-- The decimal digits of a number, with zeros in front up to the given width. -/
def padded (width n : Nat) : String :=
  let written := Nat.toDigits 10 n
  String.ofList (List.replicate (width - written.length) '0' ++ written)

/-- The written form of a fraction of a second. -/
def writeFraction (nanosecond : Nat) : String :=
  if nanosecond = 0 then ""
  else if nanosecond % 1000000 = 0 then "." ++ padded 3 (nanosecond / 1000000)
  else if nanosecond % 1000 = 0 then "." ++ padded 6 (nanosecond / 1000)
  else "." ++ padded 9 nanosecond

/-- The written form of a year. It has a sign if it does not fit in four digits. -/
def writeYear (year : Int) : String :=
  let sign := if year < 0 then "-" else if 9999 < year then "+" else ""
  sign ++ padded 4 year.natAbs

/-- The written form of a point in time: in universal time, with as many groups of three fractional
digits as are needed. -/
def write (t : Timestamp) : String :=
  writeYear t.year ++ "-" ++ padded 2 t.month ++ "-" ++ padded 2 t.day ++ "T" ++
    padded 2 t.hour ++ ":" ++ padded 2 t.minute ++ ":" ++ padded 2 t.second ++
    writeFraction t.nanosecond ++ "Z"

end Timestamp

end Workflow.Text
