namespace Workflow.Decimal

/-- A positive number with an integer significand in base two, together with the ends of the
interval that rounds to it. All three are counted in units of `2^unit`. -/
structure Cell where
  low : Nat
  value : Nat
  high : Nat
  unit : Int
  closed : Bool

/-- The cell of the positive number with the given fraction and exponent fields. Below a power of
two the neighbours are twice as dense, except for the smallest numbers. -/
def Cell.ofFields (fraction exponent : Nat) : Cell :=
  let m := if exponent = 0 then fraction else fraction + Nat.pow 2 52
  let q : Int := if exponent = 0 then -1074 else (exponent : Int) - 1075
  let below := if fraction = 0 ∧ 1 < exponent then 1 else 2
  { low := 4 * m - below, value := 4 * m, high := 4 * m + 2, unit := q - 2, closed := m % 2 == 0 }

/-- A decimal number `digits · 10^exponent`. -/
structure Scaled where
  digits : Nat
  exponent : Int
  deriving DecidableEq, Repr

/-- The number of decimal digits of `n`; one for zero. -/
def width (n : Nat) : Nat := (Nat.toDigits 10 n).length

namespace Cell

/-- Numerators of the ends and the value over a common denominator, in units of `10^grid`. -/
def inUnits (c : Cell) (grid : Int) : Nat × Nat × Nat × Nat :=
  let up := Nat.pow 2 c.unit.toNat * Nat.pow 10 (-grid).toNat
  (c.low * up, c.value * up, c.high * up, Nat.pow 2 (-c.unit).toNat * Nat.pow 10 grid.toNat)

/-- The neighbour of the value on the grid `10^grid` that lies in the cell, if one does. -/
def onGrid? (c : Cell) (grid : Int) : Option Nat :=
  let (low, value, high, unit) := c.inUnits grid
  let floor := value / unit
  let down := floor * unit
  let up := (floor + 1) * unit
  let downIn := if c.closed then low ≤ down else low < down
  let upIn := if c.closed then up ≤ high else up < high
  if downIn ∧ upIn then
    if value - down < up - value then some floor
    else if up - value < value - down then some (floor + 1)
    else if floor % 2 = 0 then some floor else some (floor + 1)
  else if downIn then some floor
  else if upIn then some (floor + 1)
  else none

/-- The exponent of the leading decimal digit. The estimate from the binary length is either right
or one too small. -/
def leading (c : Cell) : Int :=
  let estimate := ((Nat.log2 c.value : Int) + c.unit) * 30103 / 100000
  let (_, value, _, unit) := c.inUnits (estimate + 1)
  if unit ≤ value then estimate + 1 else estimate

/-- The first grid with a neighbour in the cell, from `grid` downwards. -/
def search (c : Cell) : Nat → Int → Scaled
  | 0, grid => ⟨c.value, grid⟩
  | more + 1, grid =>
    match c.onGrid? grid with
    | some digits => ⟨digits, grid⟩
    | none => search c more (grid - 1)

end Cell

/-- A decimal without zeros at its end. -/
def Scaled.strip : Nat → Scaled → Scaled
  | 0, d => d
  | more + 1, d =>
    if d.digits ≠ 0 ∧ d.digits % 10 = 0 then strip more ⟨d.digits / 10, d.exponent + 1⟩ else d

/-- The shortest decimal that reads back as the number with the given fields. A positive number
`m · 2^q` owns the interval of reals that round to it; its two ends belong to it exactly when `m` is
even. On the grid of multiples of a power of ten the number lies between two neighbours. The first
of the ever finer grids that has a neighbour inside the interval gives the digits; of two such
neighbours the nearer is taken, and an even one in a tie. Seventeen digits always suffice. -/
def shortest (fraction exponent : Nat) : Scaled :=
  let cell := Cell.ofFields fraction exponent
  (cell.search 18 cell.leading).strip 20

end Workflow.Decimal
