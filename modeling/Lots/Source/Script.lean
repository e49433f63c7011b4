import Lots.Source

/-!
# Lots — scripted draws

A script is a source whose answers are written down beforehand. Each request takes
the next one as it is, whatever was asked.
-/

namespace Lots

/-- Answers to be given in order. -/
structure Script where
  draws : List Int
deriving DecidableEq, Repr

namespace Script

def draw (_ : Request) : Script → Option (Int × Script)
  | ⟨[]⟩ => none
  | ⟨z :: rest⟩ => some (z, ⟨rest⟩)

theorem length_lt_of_draw {request : Request} {s s' : Script} {z : Int}
    (h : draw request s = some (z, s')) : s'.draws.length < s.draws.length := by
  match s, h with
  | ⟨_ :: _⟩, h =>
    obtain ⟨-, rfl⟩ := Prod.mk.inj (Option.some.inj h)
    simp

instance : Source Script where
  size s := s.draws.length
  draw := draw
  size_lt_of_draw := length_lt_of_draw

end Script

end Lots
