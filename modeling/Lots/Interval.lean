import Lots.Binary64.Decimal

/-!
# Lots — intervals

An interval of integers or of floating-point numbers whose ends belong to it or not.
Integer intervals keep their members as a half-open range: `IntRange.build` turns two
written bounds into one and refuses those without members. `Interval.text` writes the
bounds as they were given.
-/

namespace Lots

/-- The integers from `start` up to, not including, `stop`. -/
structure IntRange where
  start : Int
  stop : Int
deriving DecidableEq, Repr

/-- The bounds of an interval. -/
inductive Bounds where
  | ints (range : IntRange)
  | floats (low high : Binary64)
deriving DecidableEq, Repr

/-- An interval, with its ends included or not. -/
structure Interval where
  lowIncluded : Bool
  highIncluded : Bool
  bounds : Bounds
deriving DecidableEq, Repr

inductive Number where
  | int (z : Int)
  | float (x : Binary64)
deriving DecidableEq, Repr

def Number.text : Number → List Char
  | .int z => Numeral.intText z
  | .float x => x.text

namespace Interval

inductive End where
  | start
  | stop
deriving DecidableEq, Repr

def End.name : End → String
  | .start => "start"
  | .stop => "end"

/-- Why an interval is refused. -/
inductive Error where
  /-- A written integer is out of range. -/
  | doesNotFit (which : End)
  /-- A bound is infinite, or moves out of range when it becomes half-open. -/
  | tooBig (which : End)
  /-- No number lies in the interval. -/
  | empty
  /-- The distance of the ends is infinite. -/
  | tooWide
  /-- A written integer has too many digits. -/
  | tooLong (cause : Numeral.TooLong)
deriving DecidableEq, Repr

def Error.message : Error → String
  | .doesNotFit which =>
    "invalid interval: " ++ which.name ++ ": number too large to fit in target type"
  | .tooBig which => "invalid interval: " ++ which.name ++ " value is too big"
  | .empty => "invalid interval: the interval is empty"
  | .tooWide => "invalid interval: the interval is too wide"
  | .tooLong cause => cause.message

def minInt : Int := -0x80000000

def maxInt : Int := 0x7FFFFFFF

end Interval

/-- The half-open range of the integers between two bounds: an excluded low end and an
included high end each move up by one, and must not leave the range of integers. -/
def IntRange.build (start stop : Int) (lowIncluded highIncluded : Bool) :
    Except Interval.Error IntRange := do
  let start := if lowIncluded then start else start + 1
  if !lowIncluded && Interval.maxInt < start then throw (.tooBig .start)
  let stop := if highIncluded then stop + 1 else stop
  if highIncluded && Interval.maxInt < stop then throw (.tooBig .stop)
  if stop ≤ start then throw .empty
  return { start, stop }

namespace Interval

def isFloat (i : Interval) : Bool :=
  match i.bounds with
  | .ints _ => false
  | .floats _ _ => true

/-- The two ends as they were written. -/
def endpoints (i : Interval) : Number × Number :=
  match i.bounds with
  | .ints range =>
    (.int (if i.lowIncluded then range.start else range.start - 1),
      .int (if i.highIncluded then range.stop - 1 else range.stop))
  | .floats low high => (.float low, .float high)

/-- The canonical notation of an interval: brackets say which ends belong to it, and a
comma stands between floating-point numbers. -/
def text (i : Interval) : List Char :=
  let (low, high) := i.endpoints
  (if i.lowIncluded then '[' else '(') :: low.text ++
    (if i.isFloat then [',', ' '] else ['.', '.']) ++
    high.text ++ [if i.highIncluded then ']' else ')']

end Interval

end Lots
