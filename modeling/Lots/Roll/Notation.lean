import Lots.Roll

/-!
# Lots — dice notation

Dice notation is an optional number of dice, the letter `d`, a number of sides or a
percent sign, an optional exclamation mark, an optional choice, and any number of
signed modifiers, without blanks: `4d6`, `d%`, `3d10!dl2+2-1`.

`Roll.Notation.ofText?` recognises the notation and keeps the numbers as written;
`Roll.Notation.value` judges them from left to right. A text that is dice notation
with bad numbers is an error, not some other text.
-/

namespace Lots.Roll

open Numeral (Sign)

/-- What dice notation writes. Runs of digits are kept as written. -/
structure Notation where
  /-- The number of dice; empty if not written. -/
  amount : List Char
  /-- The number of sides; none for the percent sign. -/
  sides : Option (List Char)
  exploding : Bool
  /-- What is chosen, and how many; the digits are empty if not written. -/
  choice : Option ((Action × Side) × List Char)
  modifiers : List (Sign × List Char)
deriving DecidableEq, Repr

namespace Notation

def takeSides : List Char → Option (Option (List Char) × List Char)
  | '%' :: rest => some (none, rest)
  | s =>
    let digits := s.takeWhile Char.isDigit
    if digits.isEmpty then none else some (some digits, s.dropWhile Char.isDigit)

/-- Reads the mark of exploding dice, if it is there. -/
def takeMark : List Char → Bool × List Char
  | '!' :: rest => (true, rest)
  | s => (false, s)

/-- Reads what is chosen, if a choice is there. -/
def takeKind : List Char → Option (Action × Side) × List Char
  | 'k' :: 'l' :: rest => (some (.keep, .low), rest)
  | 'k' :: 'h' :: rest => (some (.keep, .high), rest)
  | 'k' :: rest => (some (.keep, .high), rest)
  | 'd' :: 'l' :: rest => (some (.drop, .low), rest)
  | 'd' :: 'h' :: rest => (some (.drop, .high), rest)
  | 'd' :: rest => (some (.drop, .low), rest)
  | s => (none, s)

/-- Reads a choice with its number, if it is there. -/
def takeChoice (s : List Char) : Option ((Action × Side) × List Char) × List Char :=
  match takeKind s with
  | (some kind, rest) =>
    (some (kind, rest.takeWhile Char.isDigit), rest.dropWhile Char.isDigit)
  | (none, rest) => (none, rest)

/-- Reads modifiers up to the end of the text. -/
def modifiers? : List Char → Option (List (Sign × List Char))
  | [] => some []
  | c :: rest =>
    match Sign.ofChar? c, rest.takeWhile Char.isDigit with
    | some sign, d :: ds =>
      (modifiers? (rest.dropWhile Char.isDigit)).map ((sign, d :: ds) :: ·)
    | _, _ => none
termination_by s => s.length
decreasing_by
  have := (List.dropWhile_suffix (l := rest) Char.isDigit).length_le
  grind

/-- What a text writes, if it is dice notation. -/
def ofText? (text : List Char) : Option Notation :=
  match text.dropWhile Char.isDigit with
  | 'd' :: rest => do
    let (sides, rest) ← takeSides rest
    let (exploding, rest) := takeMark rest
    let (choice, rest) := takeChoice rest
    let modifiers ← modifiers? rest
    return { amount := text.takeWhile Char.isDigit, sides, exploding, choice, modifiers }
  | _ => none

end Notation

/-! ## Value -/

inductive Count where
  | amount
  | sides
  | chosen
deriving DecidableEq, Repr

def Count.name : Count → String
  | .amount => "amount"
  | .sides => "number of sides"
  | .chosen => "select amount"

/-- Why dice notation is refused. -/
inductive Error where
  /-- A count is above `maxCount`. -/
  | tooLarge (count : Count) (digits : List Char)
  | zero (count : Count)
  /-- The sum of the modifiers is out of range. -/
  | modifier (sum : Int)
  /-- A number has too many digits to be read, or the sum of the modifiers to be shown. -/
  | tooLong (cause : Numeral.TooLong)
deriving DecidableEq, Repr

def Error.message : Error → String
  | .tooLarge count digits =>
    "invalid dice roll: bad " ++ count.name ++ ": " ++ String.ofList digits ++
      " is larger than 65535"
  | .zero count => "invalid dice roll: " ++ count.name ++ " can't be 0"
  | .modifier sum =>
    "invalid dice roll: bad modifier: " ++ String.ofList (Numeral.intText sum) ++
      " is out of range"
  | .tooLong cause => cause.message

namespace Notation

/-- The count meant by a run of digits. -/
def countValue (count : Count) (digits : List Char) : Except Error Nat :=
  match Numeral.read digits with
  | .error cause => .error (.tooLong cause)
  | .ok n =>
    if maxCount < n then .error (.tooLarge count digits)
    else if n = 0 then .error (.zero count)
    else .ok n

/-- The count meant where one may be left out; it is one then. -/
def optionalCountValue (count : Count) (digits : List Char) : Except Error Nat :=
  if digits.isEmpty then .ok 1 else countValue count digits

/-- The number of sides meant; a percent sign is a hundred. -/
def sidesValue : Option (List Char) → Except Error Nat
  | none => .ok 100
  | some digits => countValue .sides digits

def choiceValue : Option ((Action × Side) × List Char) → Except Error (Option Choice)
  | none => .ok none
  | some ((action, side), digits) =>
    (optionalCountValue .chosen digits).map fun amount => some { amount, action, side }

/-- The sum of signed modifiers. -/
def modifierSum : List (Sign × List Char) → Except Error Int
  | [] => .ok 0
  | (sign, digits) :: rest =>
    match Numeral.readSigned sign digits with
    | .error cause => .error (.tooLong cause)
    | .ok z => (modifierSum rest).map (z + ·)

/-- The modifier meant: the sum of all that are written, within its range. -/
def modifierValue (modifiers : List (Sign × List Char)) : Except Error Int := do
  let sum ← modifierSum modifiers
  if minModifier ≤ sum ∧ sum ≤ maxModifier then return sum
  match Numeral.write sum with
  | .ok _ => throw (.modifier sum)
  | .error cause => throw (.tooLong cause)

def value (written : Notation) : Except Error Roll := do
  let amount ← optionalCountValue .amount written.amount
  let sides ← sidesValue written.sides
  let choice ← choiceValue written.choice
  let modifier ← modifierValue written.modifiers
  return { amount, sides, exploding := written.exploding, choice, modifier }

end Notation

/-- Reads dice notation: nothing if the text is not dice notation, an error if it is
but its numbers make no roll. -/
def parse? (text : List Char) : Option (Except Error Roll) :=
  (Notation.ofText? text).map Notation.value

end Lots.Roll
