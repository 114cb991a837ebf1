import Workflow.Decimal.Shortest

namespace Workflow.Json

/-- Which exponents of the leading digit are written in plain layout. -/
structure Layout where
  plainFrom : Int
  plainTo : Int

/-- Plain layout is used from `0.00001` up to sixteen digits before the point. -/
def layout : Layout := ⟨-5, 15⟩

/-- Plain digits; a point is always written, with at least one digit on either side. -/
def plainDigits (digits : List Char) (leading : Int) : List Char :=
  if leading < 0 then
    ['0', '.'] ++ List.replicate (-leading - 1).toNat '0' ++ digits
  else
    let whole := leading.toNat + 1
    if digits.length ≤ whole then
      digits ++ List.replicate (whole - digits.length) '0' ++ ['.', '0']
    else digits.take whole ++ '.' :: digits.drop whole

/-- One digit, the rest behind a point, and the exponent with its sign. -/
def scientificDigits (digits : List Char) (leading : Int) : List Char :=
  let point := if digits.length ≤ 1 then digits else digits.take 1 ++ '.' :: digits.drop 1
  point ++ ['e', if leading < 0 then '-' else '+'] ++ Nat.toDigits 10 leading.natAbs

/-- The written form of a positive decimal. -/
def writeScaled (d : Decimal.Scaled) : List Char :=
  let digits := Nat.toDigits 10 d.digits
  let leading := d.exponent + (digits.length : Int) - 1
  if layout.plainFrom ≤ leading ∧ leading ≤ layout.plainTo then plainDigits digits leading
  else scientificDigits digits leading

/-- The values that the fraction field of a floating-point number can have. -/
def fractionSize : Nat := Nat.pow 2 52

/-- The values that its exponent field can have. -/
def exponentSize : Nat := Nat.pow 2 11

/-- The written form of a floating-point number: the shortest digits that read back, in a layout
that depends on the size of the number. JSON has no infinities and no indefinite numbers; they are
written as `null`. -/
def writeFloat (x : Float) : List Char :=
  let bits := x.toBits.toNat
  let fraction := bits % fractionSize
  let exponent := bits / fractionSize % exponentSize
  let sign := if bits / fractionSize / exponentSize = 1 then ['-'] else []
  if exponent = exponentSize - 1 then ['n', 'u', 'l', 'l']
  else if fraction = 0 ∧ exponent = 0 then sign ++ ['0', '.', '0']
  else sign ++ writeScaled (Decimal.shortest fraction exponent)

def writeInt : Int → List Char
  | .ofNat n => Nat.toDigits 10 n
  | .negSucc n => '-' :: Nat.toDigits 10 (n + 1)

end Workflow.Json
