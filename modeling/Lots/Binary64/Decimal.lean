import Lots.Binary64
import Lots.Numeral

/-!
# Lots — decimal text of floating-point numbers

A decimal text is read as the number of the format nearest to it. A number is written
with the fewest digits that read back as the same number; among those, with the nearest
ones. The first digit's power of ten decides the layout: positional from 10^-4 up to,
not including, 10^16, with at least one digit on either side of the point, and with an
exponent elsewhere.
-/

namespace Lots.Binary64

/-! ## Reading -/

/-- The number nearest to a decimal fraction with so many digits after the point. -/
def ofDecimal (negative : Bool) (digits : List Char) (places : Nat) : Binary64 :=
  ofRatio negative (Numeral.value digits * oneUnits) (Nat.pow 10 places)

/-! ## Shortest digits

A magnitude is exactly a whole number in units of a power of ten, since halves are tenths
times five. Cutting digits off the end of that number gives the grids of shorter decimal
numbers. -/

/-- Decimal digits, and the power of ten of the last one. -/
structure Digits where
  value : Nat
  exponent : Int
deriving DecidableEq, Repr

/-- How many decimal places a magnitude has: as many as its least denominator, a power of
two, has factors of two. -/
def placesOf (units : Nat) : Nat :=
  (oneUnits / units.gcd oneUnits).log2

/-- The magnitude nearest to a whole number in units of a power of ten. -/
def unitsAt (places value : Nat) : Nat :=
  round (value * oneUnits) (Nat.pow 10 places)

/-- A neighbour of a magnitude on the grid of multiples of `step`, in multiples of the
step, if one reads back as the magnitude: the nearer one if both do, and of two equally
near the even one. The magnitude is given twice, in units and exactly in so many decimal
places. -/
def gridPoint? (units places exact step : Nat) : Option Nat :=
  let low := exact / step
  let lowReads := unitsAt places (low * step) = units
  let highReads := unitsAt places ((low + 1) * step) = units
  if lowReads ∧ highReads then some (nearest exact step)
  else if lowReads then some low
  else if highReads then some (low + 1)
  else none

/-- The fewest decimal digits that read back as a magnitude. Seventeen always do; the
exact decimal stands behind them. -/
def shortest (units : Nat) : Digits :=
  let places := placesOf units
  let exact := units * Nat.pow 10 places / oneUnits
  let length := (Numeral.text exact).length
  let found := (List.range' 1 17).findSome? fun count =>
    let cut := length - count
    (gridPoint? units places exact (Nat.pow 10 cut)).map (Digits.mk · (cut - (places : Int)))
  found.getD ⟨exact, -places⟩

/-! ## Layout -/

/-- The least power of ten of a first digit that is written positionally. -/
def leastPositional : Int := -4

/-- The least power of ten of a first digit that is no longer written positionally. -/
def leastExponential : Int := 16

/-- Digits without trailing zeros, but at least one digit. -/
def significant (digits : List Char) : List Char :=
  match (digits.reverse.dropWhile (· == '0')).reverse with
  | [] => ['0']
  | kept => kept

def zeros (count : Nat) : List Char :=
  List.replicate count '0'

/-- Digits around a point, the first one at a power of ten. -/
def positional (digits : List Char) (power : Int) : List Char :=
  if power < 0 then '0' :: '.' :: zeros (power.natAbs - 1) ++ digits
  else
    let places := power.toNat + 1
    let whole := digits.take places ++ zeros (places - digits.length)
    let fraction := digits.drop places
    whole ++ '.' :: (if fraction.isEmpty then ['0'] else fraction)

/-- Digits with a power of ten, of which at least two digits are written. -/
def exponential (digits : List Char) (power : Int) : List Char :=
  let mantissa := match digits with
    | first :: second :: rest => first :: '.' :: second :: rest
    | short => short
  let exponent := Numeral.text power.natAbs
  mantissa ++ 'e' :: (if power < 0 then '-' else '+') ::
    zeros (2 - exponent.length) ++ exponent

def unitsText (units : Nat) : List Char :=
  if infiniteUnits ≤ units then ['i', 'n', 'f']
  else if units = 0 then ['0', '.', '0']
  else
    let found := shortest units
    let digits := Numeral.text found.value
    let power := found.exponent + (digits.length : Int) - 1
    let digits := significant digits
    if leastPositional ≤ power ∧ power < leastExponential then positional digits power
    else exponential digits power

def text (x : Binary64) : List Char :=
  if x.negative then '-' :: unitsText x.units else unitsText x.units

end Lots.Binary64
