import Lots.Interval
import Lots.Source

/-!
# Lots — numbers drawn from an interval

An integer interval is drawn from directly. A floating-point interval is sampled by a
fraction of its length, from the low end up; where rounding or the fraction zero would
hit an excluded end, another fraction is drawn.
-/

namespace Lots.Interval

variable {σ : Type} [Source σ]

/-- The number at a fraction of the way from `low` to `high`. -/
def interpolate (low high fraction : Binary64) : Binary64 :=
  low + (high - low) * fraction

/-- Draws numbers until one is below `high`; the low end itself counts only if it is
included. -/
def drawBelow (lowIncluded : Bool) (low high : Binary64) (s : σ) : Option (Binary64 × σ) :=
  match _h : Source.draw .unit s with
  | none => none
  | some (z, s) =>
    let x := interpolate low high (.ofFraction z)
    if (lowIncluded || z != 0) && decide (x < high) then some (x, s)
    else drawBelow lowIncluded low high s
termination_by Source.size s
decreasing_by exact Source.size_lt_of_draw _h

/-- Draws a floating-point number. If the high end is included, the fraction runs from
one down when the low end is not. -/
def drawFloat (lowIncluded highIncluded : Bool) (low high : Binary64) : Draw σ Binary64 :=
  match highIncluded, lowIncluded with
  | true, true => fun s =>
    (Source.unit s).map fun (z, s) => (interpolate low high (.ofFraction z), s)
  | true, false => fun s =>
    (Source.unit s).map fun (z, s) => (interpolate low high (.one - .ofFraction z), s)
  | false, included => drawBelow included low high

/-- Draws a number of the interval. -/
def draw (i : Interval) : Draw σ Number :=
  match i.bounds with
  | .ints range => fun s =>
    (Source.range range.start range.stop s).map fun (z, s) => (.int z, s)
  | .floats low high => fun s =>
    (drawFloat i.lowIncluded i.highIncluded low high s).map fun (x, s) => (.float x, s)

end Lots.Interval
