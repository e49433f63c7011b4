/-!
# Lots — integers as text

Integers are read from and written to runs of decimal digits. Both directions are
bounded: a run of more than `digitLimit` digits is neither read nor written, and
`TooLong` says which of the two was attempted.

`read_text` is the round trip on the bounded numbers.
-/

namespace Lots.Numeral

/-- The most decimal digits, leading zeros counted, that an integer is read from
or written with. -/
def digitLimit : Nat := 4300

/-- A conversion between an integer and its digits that was refused. -/
inductive TooLong where
  /-- A text of this many digits was to be read. -/
  | reading (digits : Nat)
  /-- An integer with too many digits was to be written. -/
  | writing
deriving DecidableEq, Repr

inductive Sign where
  | plus
  | minus
deriving DecidableEq, Repr

def Sign.ofChar? : Char → Option Sign
  | '+' => some .plus
  | '-' => some .minus
  | _ => none

def Sign.toChar : Sign → Char
  | .plus => '+'
  | .minus => '-'

def Sign.apply : Sign → Nat → Int
  | .plus, n => n
  | .minus, n => -n

/-! ## Writing -/

/-- The decimal digits of a natural number, without leading zeros. -/
def text (n : Nat) : List Char :=
  Nat.toDigits 10 n

/-- The decimal digits of an integer, after a minus sign if it is negative. -/
def intText (z : Int) : List Char :=
  if z < 0 then '-' :: text z.natAbs else text z.natAbs

/-- An integer with its sign always written. -/
def signedText (z : Int) : List Char :=
  (if z < 0 then '-' else '+') :: text z.natAbs

/-- The decimal digits of an integer, if there are not too many of them. -/
def write (z : Int) : Except TooLong (List Char) :=
  if (text z.natAbs).length ≤ digitLimit then .ok (intText z) else .error .writing

/-- Lower-case hexadecimal digits, with zeros in front up to a width. -/
def hexText (width n : Nat) : List Char :=
  let digits := Nat.toDigits 16 n
  List.replicate (width - digits.length) '0' ++ digits

/-! ## Reading -/

/-- The value of a run of decimal digits. -/
def value (digits : List Char) : Nat :=
  Nat.ofDigitChars 10 digits 0

/-- Reads a run of decimal digits, if it is not too long. -/
def read (digits : List Char) : Except TooLong Nat :=
  if digits.length ≤ digitLimit then .ok (value digits) else .error (.reading digits.length)

/-- Reads a run of decimal digits under a sign, if it is not too long. -/
def readSigned (sign : Sign) (digits : List Char) : Except TooLong Int :=
  (read digits).map sign.apply

theorem value_text (n : Nat) : value (text n) = n :=
  Nat.ofDigitChars_toDigits (by decide) (by decide)

/-- A number that may be written is read back. -/
theorem read_text {n : Nat} (h : (text n).length ≤ digitLimit) : read (text n) = .ok n := by
  simp [read, h, value_text]

/-! ## Messages -/

def TooLong.message : TooLong → String
  | .reading digits =>
    "Exceeds the limit (4300 digits) for integer string conversion: value has " ++
      String.ofList (text digits) ++
      " digits; use sys.set_int_max_str_digits() to increase the limit"
  | .writing =>
    "Exceeds the limit (4300 digits) for integer string conversion; " ++
      "use sys.set_int_max_str_digits() to increase the limit"

end Lots.Numeral
