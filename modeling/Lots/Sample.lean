import Lots.Expr
import Lots.Roll.Outcome
import Lots.Interval.Sampling

/-!
# Lots — samples

Evaluating an expression draws a sample. A sample keeps what it was drawn from, so its
two renderings, the full one and the one that shows the value only, are views of the
same draw.
-/

namespace Lots

/-- The result of evaluating an entry. -/
inductive Sample where
  | text (text : List Char)
  | coin (heads : Bool)
  | color (red green blue : Nat)
  /-- Bytes, the first one first. -/
  | uuid (bytes : List Nat)
  | roll (outcome : RollOutcome)
  | interval (interval : Interval) (number : Number)
deriving DecidableEq, Repr

namespace Sample

/-! ## Rendering -/

/-- A component of a color: two upper-case hexadecimal digits. -/
def componentText (n : Nat) : List Char :=
  (Numeral.hexText 2 n).map Char.toUpper

/-- Bytes in hexadecimal digits, in groups of 4, 2, 2, 2 and 6 bytes. -/
def uuidText (bytes : List Nat) : List Char :=
  let group := fun (start count : Nat) =>
    ((bytes.drop start).take count).flatMap (Numeral.hexText 2)
  List.intercalate ['-'] [group 0 4, group 4 2, group 6 2, group 8 2, group 10 6]

/-- The value without the expression it came from. -/
def value : Sample → List Char
  | .text t => t
  | .coin heads => if heads then "heads".toList else "tails".toList
  | .color red green blue =>
    '#' :: componentText red ++ componentText green ++ componentText blue
  | .uuid bytes => uuidText bytes
  | .roll outcome => outcome.value
  | .interval _ number => number.text

/-- The value with the expression it came from, where there is one to show. -/
def full : Sample → List Char
  | .roll outcome => outcome.full
  | .interval i number => i.text ++ ':' :: ' ' :: number.text
  | sample => sample.value

/-- A rendering: the value only, or in full. -/
def render (valueOnly : Bool) (sample : Sample) : List Char :=
  if valueOnly then sample.value else sample.full

/-- One line per sample, each ended by a line feed. -/
def renderAll (valueOnly : Bool) (samples : List Sample) : List Char :=
  samples.flatMap fun sample => sample.render valueOnly ++ ['\n']

end Sample

/-! ## Evaluation -/

variable {σ : Type} [Source σ]

/-- Draws so many bytes. -/
def drawBytes : Nat → Draw σ (List Nat)
  | 0 => pure []
  | n + 1 => do
    let byte ← Source.bits 8
    let rest ← drawBytes n
    return byte :: rest

/-- Sets the version and the variant of a random identifier. -/
def stampUuid (bytes : List Nat) : List Nat :=
  (bytes.modify 6 fun b => b % 16 + 0x40).modify 8 fun b => b % 64 + 0x80

/-- Draws a sample of an expression. -/
def Expr.evaluate : Expr → Draw σ Sample
  | .text t => pure (.text t)
  | .coin => do
    let bit ← Source.bits 1
    return .coin (bit != 0)
  | .color => do
    let red ← Source.bits 8
    let green ← Source.bits 8
    let blue ← Source.bits 8
    return .color red green blue
  | .uuid => do
    let bytes ← drawBytes 16
    return .uuid (stampUuid bytes)
  | .dice roll => do
    let outcome ← roll.draw
    return .roll outcome
  | .interval i => do
    let number ← i.draw
    return .interval i number

end Lots
