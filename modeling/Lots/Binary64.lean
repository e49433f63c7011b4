/-!
# Lots — binary floating-point numbers of 64 bits

Every finite number of the format is a whole multiple of the least positive one,
2^-1074. A `Binary64` is a sign and that multiple, so sums and products are computed
exactly on integers and rounded once, to the nearest number of the format, a tie going
to the even neighbour. Magnitudes from 2^1024 on count as infinite.
-/

namespace Lots

/-- A number of the format: its sign, which zero has too, and its magnitude in units of
2^-1074. -/
structure Binary64 where
  negative : Bool
  units : Nat
deriving DecidableEq, Repr

namespace Binary64

/-- Units in one. -/
def oneUnits : Nat := Nat.pow 2 1074

/-- Units from which a magnitude is infinite. -/
def infiniteUnits : Nat := Nat.pow 2 2098

def isFinite (x : Binary64) : Bool :=
  x.units < infiniteUnits

def zero : Binary64 := ⟨false, 0⟩

def one : Binary64 := ⟨false, oneUnits⟩

/-- A number in units, with its sign. -/
def signedUnits (x : Binary64) : Int :=
  if x.negative then -x.units else x.units

/-! ## Rounding -/

/-- The whole number nearest to a ratio; of two equally near, the even one. -/
def nearest (num den : Nat) : Nat :=
  let low := num / den
  let rest := num % den
  if 2 * rest < den then low
  else if den < 2 * rest then low + 1
  else if low % 2 = 0 then low else low + 1

/-- The nearest whole number is at most half a unit above the ratio. -/
theorem nearest_le {num den : Nat} (h : 0 < den) : den * (2 * nearest num den) ≤ 2 * num + den := by
  have hdiv := Nat.div_add_mod num den
  have hlt := Nat.mod_lt num h
  unfold nearest
  generalize num / den = low at *
  generalize num % den = rest at *
  have hsucc : den * (2 * (low + 1)) = 2 * (den * low) + 2 * den := by grind
  have hlow : den * (2 * low) = 2 * (den * low) := by grind
  dsimp only
  split
  · omega
  · split
    · omega
    · split <;> omega

/-- The distance, in units, of the format's numbers around so many units: a number has
53 significant bits. -/
def spacing (units : Nat) : Nat :=
  Nat.pow 2 (units.log2 + 1 - 53)

/-- The magnitude of the format nearest to a ratio of units. -/
def round (num den : Nat) : Nat :=
  let step := spacing (num / den)
  nearest num (den * step) * step

def ofRatio (negative : Bool) (num den : Nat) : Binary64 :=
  ⟨negative, min (round num den) infiniteUnits⟩

/-- The number of the format nearest to a fraction in units of 2^-53. -/
def ofFraction (z : Int) : Binary64 :=
  ofRatio (z < 0) (z.natAbs * Nat.pow 2 1021) 1

/-! ## Arithmetic -/

def neg (x : Binary64) : Binary64 :=
  ⟨!x.negative, x.units⟩

/-- The rounded sum. A sum of zero is negative only if both terms are; an infinite term
decides the sum. -/
def add (x y : Binary64) : Binary64 :=
  let sum := x.signedUnits + y.signedUnits
  if !x.isFinite then x
  else if !y.isFinite then y
  else if sum = 0 then ⟨x.negative && y.negative, 0⟩
  else ofRatio (sum < 0) sum.natAbs 1

def sub (x y : Binary64) : Binary64 :=
  x.add y.neg

def mul (x y : Binary64) : Binary64 :=
  ofRatio (x.negative != y.negative) (x.units * y.units) oneUnits

instance : Add Binary64 := ⟨add⟩
instance : Sub Binary64 := ⟨sub⟩
instance : Mul Binary64 := ⟨mul⟩

/-- Numbers are ordered by value; the two zeros are not apart. -/
instance : LT Binary64 := ⟨fun x y => x.signedUnits < y.signedUnits⟩

instance (x y : Binary64) : Decidable (x < y) :=
  inferInstanceAs (Decidable (x.signedUnits < y.signedUnits))

end Binary64

end Lots
