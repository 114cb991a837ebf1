import Workflow.Json.Reader.Basic
import Workflow.Json.Value

namespace Workflow.Json.Reader

def isDigit (c : Char) : Bool := '0' ≤ c && c ≤ '9'

def digitValue (c : Char) : Nat := c.toNat - '0'.toNat

/-- Whether a digit is ahead. -/
def digitAhead : List Char → Bool
  | c :: _ => isDigit c
  | [] => false

/-- Appends digits to `m` as long as the number fits in 64 bits. Gives the number, how many digits
it took, and the text after them. -/
def takeDigits (m taken : Nat) : List Char → Nat × Nat × List Char
  | [] => (m, taken, [])
  | c :: rest =>
    if isDigit c ∧ m * 10 + digitValue c < UInt64.size then
      takeDigits (m * 10 + digitValue c) (taken + 1) rest
    else (m, taken, c :: rest)

/-- Scales by a negative power of ten beyond the range of the format, in steps. -/
def scaleDown : Nat → Float → Int → Float
  | 0, x, _ => x
  | more + 1, x, exponent =>
    if exponent ≥ -308 then x / Float.ofScientific 1 false exponent.natAbs
    else if x == 0 then x
    else scaleDown more (x / Float.ofScientific 1 false 308) (exponent + 308)

/-- The floating-point number nearest to `m`, multiplied or divided by one power of ten. There is
none if the product is out of range. -/
def assemble? (m : Nat) (exponent : Int) : Option Float :=
  let x := m.toUInt64.toFloat
  if exponent < 0 then some (scaleDown (exponent.natAbs / 308 + 1) x exponent)
  else if exponent ≤ 308 then
    let product := x * Float.ofScientific 1 false exponent.toNat
    if product.isInf then none else some product
  else if m = 0 then some x
  else none

/-- A floating-point number from its parts, in front of the text ahead. -/
def assembled (negative : Bool) (m : Nat) (exponent : Int) (s : List Char) :
    Except Fault (Json × List Char) :=
  match assemble? m exponent with
  | some x => .ok (.float (if negative then -x else x), s)
  | none => .error (faultBefore .numberOutOfRange s)

/-- The largest exponent that is kept apart; larger ones only count as very large. -/
def exponentBound : Nat := 2147483647

/-- Reads the digits of an exponent up to the bound. Gives nothing, and the text behind the digit
that passes the bound, if the exponent is larger. -/
def exponentDigits (n : Nat) : List Char → Option Nat × List Char
  | [] => (some n, [])
  | c :: rest =>
    if isDigit c then
      if n * 10 + digitValue c > exponentBound then (none, rest)
      else exponentDigits (n * 10 + digitValue c) rest
    else (some n, c :: rest)

/-- Keeps an exponent within the bounds. -/
def clampExponent (e : Int) : Int := max (-(exponentBound : Int) - 1) (min exponentBound e)

/-- Reads an exponent behind its sign and finishes the number. -/
def unsignedExponent (negative : Bool) (m : Nat) (exponent : Int) (up : Bool) (s : List Char) :
    Except Fault (Json × List Char) :=
  match s with
  | [] => .error (faultAt .endInValue [])
  | c :: rest =>
    if isDigit c then
      match exponentDigits (digitValue c) rest with
      | (some n, rest) =>
        assembled negative m (clampExponent (if up then exponent + n else exponent - n)) rest
      | (none, rest) =>
        if m ≠ 0 ∧ up then .error (faultBefore .numberOutOfRange rest)
        else .ok (.float (if negative then -0.0 else 0.0), rest.dropWhile isDigit)
    else .error (faultAt .invalidNumber (c :: rest))

/-- Reads an optional exponent and finishes the number. -/
def optionalExponent (negative : Bool) (m : Nat) (exponent : Int) (s : List Char) :
    Except Fault (Json × List Char) :=
  match s with
  | c :: rest =>
    if c = 'e' ∨ c = 'E' then
      match rest with
      | '+' :: rest => unsignedExponent negative m exponent true rest
      | '-' :: rest => unsignedExponent negative m exponent false rest
      | rest => unsignedExponent negative m exponent true rest
    else assembled negative m exponent s
  | [] => assembled negative m exponent s

/-- Reads the digits behind the point and finishes the number. Digits that do not fit are skipped
without effect. -/
def fraction (negative : Bool) (m : Nat) (exponent : Int) (s : List Char) :
    Except Fault (Json × List Char) :=
  let (m, taken, rest) := takeDigits m 0 s
  if digitAhead rest then
    optionalExponent negative m (exponent - taken) (rest.dropWhile isDigit)
  else if taken = 0 then
    match rest with
    | [] => .error (faultAt .endInValue [])
    | rest => .error (faultAt .invalidNumber rest)
  else optionalExponent negative m (exponent - taken) rest

/-- The whole number `m` with its sign. Minus zero and what does not fit in 64 bits are
floating-point numbers. -/
def whole (negative : Bool) (m : Nat) : Json :=
  if negative then
    if m = 0 ∨ UInt64.size / 2 < m then .float (-m.toUInt64.toFloat) else .int (-m)
  else .int m

/-- Reads what may follow the whole part of a number. -/
def afterWhole (negative : Bool) (m : Nat) (dropped : Nat) (s : List Char) :
    Except Fault (Json × List Char) :=
  match s with
  | '.' :: rest => fraction negative m dropped rest
  | c :: rest =>
    if c = 'e' ∨ c = 'E' then optionalExponent negative m dropped (c :: rest)
    else if dropped = 0 then .ok (whole negative m, s)
    else assembled negative m dropped s
  | [] => if dropped = 0 then .ok (whole negative m, []) else assembled negative m dropped []

/-- Reads a number behind its sign. Whole digits that do not fit raise the exponent. -/
def unsigned (negative : Bool) (s : List Char) : Except Fault (Json × List Char) :=
  match s with
  | [] => .error (faultAt .endInValue [])
  | c :: rest =>
    if c = '0' then
      if digitAhead rest then .error (faultAt .invalidNumber rest)
      else afterWhole negative 0 0 rest
    else if isDigit c then
      let (m, _, rest) := takeDigits (digitValue c) 0 rest
      let dropped := rest.takeWhile isDigit
      afterWhole negative m dropped.length (rest.dropWhile isDigit)
    else .error (faultAt .invalidNumber (c :: rest))

/-- Reads a number. Without point and exponent it is a whole number if it fits in 64 bits; anything
else is a floating-point number, built from the digits that fit in 64 bits and from one power of
ten. -/
def number (s : List Char) : Except Fault (Json × List Char) :=
  match s with
  | '-' :: rest => unsigned true rest
  | rest => unsigned false rest

end Workflow.Json.Reader
