import Lots.Interval

/-!
# Lots — interval notation

Intervals are written in two ways. The bare form is two integers around `..` or `..=`,
without blanks; its low end is included, and its high end with `..=`. The bracket form
is two numbers around a comma, `..` or `..=` inside round or square brackets, which say
what is included; spaces and tabs may stand between its tokens. A comma or a decimal
point makes it an interval of floating-point numbers.

`Notation.ofText?` recognises both forms and `Notation.value` judges their numbers. A
point belongs to a number only if a digit follows it, so `[1...5]` reads as `1`, `..`
and `.5`.
-/

namespace Lots.Interval

open Numeral (Sign)

/-! ## Numbers -/

/-- A written number: an optional sign, digits, and a fraction if there is a point. -/
structure NumberText where
  sign : Option Sign
  whole : List Char
  fraction : Option (List Char)
deriving DecidableEq, Repr

namespace NumberText

def takeSign : List Char → Option Sign × List Char
  | c :: rest =>
    match Sign.ofChar? c with
    | some sign => (some sign, rest)
    | none => (none, c :: rest)
  | [] => (none, [])

/-- Reads a point with the digits behind it, if they are there. -/
def takeFraction : List Char → Option (List Char) × List Char
  | '.' :: rest =>
    if (rest.takeWhile Char.isDigit).isEmpty then (none, '.' :: rest)
    else (some (rest.takeWhile Char.isDigit), rest.dropWhile Char.isDigit)
  | s => (none, s)

def takeInt (s : List Char) : Option (NumberText × List Char) :=
  let (sign, rest) := takeSign s
  let whole := rest.takeWhile Char.isDigit
  if whole.isEmpty then none
  else some (⟨sign, whole, none⟩, rest.dropWhile Char.isDigit)

/-- Reads a number: digits, a fraction, or both. -/
def take (s : List Char) : Option (NumberText × List Char) :=
  let (sign, rest) := takeSign s
  let whole := rest.takeWhile Char.isDigit
  let (fraction, rest) := takeFraction (rest.dropWhile Char.isDigit)
  if whole.isEmpty && fraction.isNone then none
  else some (⟨sign, whole, fraction⟩, rest)

/-- The integer meant by sign and digits, within the range of integers. -/
def intValue (which : End) (n : NumberText) : Except Error Int :=
  match Numeral.readSigned (n.sign.getD .plus) n.whole with
  | .error cause => .error (.tooLong cause)
  | .ok z => if minInt ≤ z ∧ z ≤ maxInt then .ok z else .error (.doesNotFit which)

/-- The floating-point number meant, which must be finite. -/
def floatValue (which : End) (n : NumberText) : Except Error Binary64 :=
  let fraction := n.fraction.getD []
  let x := Binary64.ofDecimal (n.sign == some .minus) (n.whole ++ fraction) fraction.length
  if x.isFinite then .ok x else .error (.tooBig which)

end NumberText

/-! ## Notation -/

/-- What stands between the two ends. -/
inductive Between where
  | comma
  | dots
  | dotsEqual
deriving DecidableEq, Repr

/-- What interval notation writes. -/
inductive Notation where
  | bare (start stop : NumberText) (inclusive : Bool)
  | bracket (lowIncluded : Bool) (start : NumberText) (between : Between) (stop : NumberText)
      (highIncluded : Bool)
deriving DecidableEq, Repr

namespace Notation

/-- Blanks that may stand between the tokens of the bracket form. -/
def isSpace (c : Char) : Bool :=
  c == ' ' || c == '\t'

def skip (s : List Char) : List Char :=
  s.dropWhile isSpace

/-- Reads the dots between two ends; with an equals sign if one follows. -/
def takeDots : List Char → Option (Between × List Char)
  | '.' :: '.' :: '=' :: rest => some (.dotsEqual, rest)
  | '.' :: '.' :: rest => some (.dots, rest)
  | _ => none

/-- Reads what stands between two ends. -/
def takeBetween : List Char → Option (Between × List Char)
  | ',' :: rest => some (.comma, rest)
  | s => takeDots s

/-- Reads an opening bracket: whether it includes the end. -/
def takeOpen : List Char → Option (Bool × List Char)
  | '[' :: rest => some (true, rest)
  | '(' :: rest => some (false, rest)
  | _ => none

/-- Reads a closing bracket: whether it includes the end. -/
def takeClose : List Char → Option (Bool × List Char)
  | ']' :: rest => some (true, rest)
  | ')' :: rest => some (false, rest)
  | _ => none

def ofBare? (text : List Char) : Option Notation := do
  let (start, rest) ← NumberText.takeInt text
  let (between, rest) ← takeDots rest
  let (stop, rest) ← NumberText.takeInt rest
  if rest.isEmpty then return .bare start stop (between == .dotsEqual) else none

def ofBracket? (text : List Char) : Option Notation := do
  let (lowIncluded, rest) ← takeOpen (skip text)
  let (start, rest) ← NumberText.take (skip rest)
  let (between, rest) ← takeBetween (skip rest)
  let (stop, rest) ← NumberText.take (skip rest)
  let (highIncluded, rest) ← takeClose (skip rest)
  if (skip rest).isEmpty then return .bracket lowIncluded start between stop highIncluded
  else none

/-- What a text writes, if it is interval notation. -/
def ofText? (text : List Char) : Option Notation :=
  (ofBare? text).or (ofBracket? text)

/-- Whether a bracket form is about floating-point numbers. -/
def isFloat (start : NumberText) (between : Between) (stop : NumberText) : Bool :=
  between == .comma || start.fraction.isSome || stop.fraction.isSome

/-- The interval of integers meant by two ends. -/
def intValue (lowIncluded : Bool) (start stop : NumberText) (highIncluded : Bool) :
    Except Error Interval := do
  let low ← start.intValue .start
  let high ← stop.intValue .stop
  let range ← IntRange.build low high lowIncluded highIncluded
  return { lowIncluded, highIncluded, bounds := .ints range }

/-- The interval of floating-point numbers meant by two ends. Their distance must be
finite, since sampling scales by it. -/
def floatValue (lowIncluded : Bool) (start stop : NumberText) (highIncluded : Bool) :
    Except Error Interval := do
  let low ← start.floatValue .start
  let high ← stop.floatValue .stop
  if ¬ low < high then throw .empty
  if !(high - low).isFinite then throw .tooWide
  return { lowIncluded, highIncluded, bounds := .floats low high }

def value : Notation → Except Error Interval
  | .bare start stop inclusive => intValue true start stop inclusive
  | .bracket lowIncluded start between stop highIncluded =>
    if isFloat start between stop then floatValue lowIncluded start stop highIncluded
    else intValue lowIncluded start stop highIncluded

end Notation

/-- Reads interval notation: nothing if the text is not interval notation, an error if it
is but its numbers make no interval. -/
def parse? (text : List Char) : Option (Except Error Interval) :=
  (Notation.ofText? text).map Notation.value

end Lots.Interval
