import Lots.Source

/-!
# Lots — taped draws

A tape holds requests with their answers. It answers a request only if that is the next one
on the tape, and the answer is in range. So the tapes that a computation uses up are the
records of what it may ask a source and be told.
-/

namespace Lots

/-- Whether an integer is an answer to a request. -/
def Request.allows : Request → Int → Bool
  | .bits count, z => 0 ≤ z && z < Nat.pow 2 count
  | .range low high, z => low ≤ z && z < high
  | .unit, z => 0 ≤ z && z < Nat.pow 2 53

/-- Requests and the answers to them, in order. -/
structure Tape where
  draws : List (Request × Int)
deriving DecidableEq, Repr

namespace Tape

def draw (request : Request) : Tape → Option (Int × Tape)
  | ⟨[]⟩ => none
  | ⟨(asked, z) :: rest⟩ =>
    if asked = request ∧ request.allows z = true then some (z, ⟨rest⟩) else none

theorem length_lt_of_draw {request : Request} {s s' : Tape} {z : Int}
    (h : draw request s = some (z, s')) : s'.draws.length < s.draws.length := by
  match s, h with
  | ⟨_ :: _⟩, h =>
    rw [draw] at h
    split at h
    · obtain ⟨-, rfl⟩ := Prod.mk.inj (Option.some.inj h)
      simp
    · cases h

instance : Source Tape where
  size s := s.draws.length
  draw := draw
  size_lt_of_draw := length_lt_of_draw

/-- Tapes answer a request with what is allowed, and with nothing else. -/
theorem answers_iff (request : Request) (z : Int) :
    (∃ s s' : Tape, Source.draw request s = some (z, s')) ↔ request.allows z = true := by
  constructor
  · rintro ⟨⟨draws⟩, s', hdraw⟩
    cases draws with
    | nil => cases hdraw
    | cons first rest =>
      simp only [Source.draw, draw] at hdraw
      split at hdraw
      · next hfirst =>
        cases hdraw
        exact hfirst.2
      · cases hdraw
  · intro hallows
    exact ⟨⟨[(request, z)]⟩, ⟨[]⟩, if_pos ⟨rfl, hallows⟩⟩

/-- The tape of numbers, each drawn below a bound of its own. -/
def below (draws bounds : List Nat) : Tape :=
  ⟨List.zipWith (fun (j n : Nat) => (.range 0 n, (j : Int))) draws bounds⟩

/-- A tape answers a request for a number below `n` if it begins with such a number that was
drawn below `n`. -/
theorem below_eq_some_iff {n j : Nat} {s s' : Tape} :
    Source.below n s = some (j, s') ↔ j < n ∧ s = ⟨(.range 0 n, (j : Int)) :: s'.draws⟩ := by
  match s with
  | ⟨[]⟩ => simp [Source.below, Source.draw, draw]
  | ⟨(asked, z) :: rest⟩ =>
    have hdraw : Source.below n (Tape.mk ((asked, z) :: rest)) =
        if asked = .range 0 n ∧ 0 ≤ z ∧ z < n then some (z.toNat, ⟨rest⟩) else none := by
      simp only [Source.below, Source.draw, draw, Request.allows, Bool.and_eq_true,
        decide_eq_true_eq]
      split
      · rfl
      · rfl
    rw [hdraw]
    constructor
    · intro h
      split at h
      · next hz =>
        obtain ⟨rfl, hnonneg, hlt⟩ := hz
        obtain ⟨rfl, rfl⟩ := Prod.mk.inj (Option.some.inj h)
        refine ⟨by omega, ?_⟩
        rw [Int.toNat_of_nonneg hnonneg]
      · cases h
    · rintro ⟨hj, htape⟩
      obtain ⟨hfirst, rfl⟩ := List.cons.inj (Tape.mk.inj htape)
      obtain ⟨rfl, rfl⟩ := Prod.mk.inj hfirst
      rw [if_pos ⟨rfl, by omega, by omega⟩, Int.toNat_natCast]

theorem below_cons {n j : Nat} (hj : j < n) (draws bounds : List Nat) :
    Source.below n (below (j :: draws) (n :: bounds)) = some (j, below draws bounds) :=
  below_eq_some_iff.mpr ⟨hj, rfl⟩

/-- A tape tells the numbers that were drawn. -/
theorem below_injective {draws draws' bounds : List Nat} (hdraws : draws.length = bounds.length)
    (hdraws' : draws'.length = bounds.length) (h : below draws bounds = below draws' bounds) :
    draws = draws' := by
  have hnumbers : ∀ {draws : List Nat}, draws.length = bounds.length →
      (below draws bounds).draws.map (fun drawn => drawn.2.toNat) = draws := by
    intro draws hlength
    rw [below, List.map_zipWith]
    apply List.ext_getElem
    · simp [hlength]
    · simp
  rw [← hnumbers hdraws, h, hnumbers hdraws']

end Tape

end Lots
