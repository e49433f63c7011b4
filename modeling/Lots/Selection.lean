import Lots.Options
import Lots.Source

/-!
# Lots — selection

Entries are picked out of a population by draws below a count. Without replacement the
picks come out of a pool in which the last element fills each gap, so that a shuffle and
a small sample are the same steps; a small sample of a large population draws places
instead and leaves out those drawn before. Keeping the order sorts the picks afterwards
and so never changes what is picked.
-/

namespace Lots.Selection

variable {σ α : Type} [Source σ]

/-! ## Without replacement -/

/-- Takes the element at a place out of a pool; the last element takes the place. -/
def takeOut (pool : Array α) (j : Nat) : Option (α × Array α) :=
  if h : j < pool.size then
    have hlast : pool.size - 1 < pool.size := by omega
    some (pool[j], (pool.set j pool[pool.size - 1]).pop)
  else none

theorem takeOut_isSome_iff {pool : Array α} {j : Nat} :
    (takeOut pool j).isSome ↔ j < pool.size := by
  unfold takeOut
  split <;> simp_all

/-- Taking an element out leaves one less. -/
theorem size_of_takeOut {pool rest : Array α} {j : Nat} {x : α}
    (h : takeOut pool j = some (x, rest)) : rest.size + 1 = pool.size := by
  unfold takeOut at h
  split at h
  · obtain ⟨-, rfl⟩ := Prod.mk.inj (Option.some.inj h)
    simp only [Array.size_pop, Array.size_set]
    omega
  · simp at h

/-- Draws so many elements out of a pool, after those taken before: the elements taken,
in the order of the draws, and the pool that remains. -/
def drawOut (count : Nat) (taken pool : Array α) (s : σ) :
    Option ((Array α × Array α) × σ) :=
  match count with
  | 0 => some ((taken, pool), s)
  | more + 1 =>
    match Source.below pool.size s with
    | none => none
    | some (j, s) =>
      match takeOut pool j with
      | none => none
      | some (x, pool) => drawOut more (taken.push x) pool s

/-- All elements in random order. Elements are drawn until one remains, and the first one
drawn comes last. -/
def shuffle (xs : Array α) : Draw σ (List α) := fun s =>
  (drawOut (xs.size - 1) #[] xs s).map fun ((taken, rest), s) =>
    (rest.toList ++ taken.toList.reverse, s)

/-- Draws so many different places below `size`, after those drawn before; a place that
was drawn before is drawn again, and one that does not exist ends the draw. -/
def drawPlaces (size count : Nat) (places : Array Nat) (s : σ) : Option (Array Nat × σ) :=
  match count with
  | 0 => some (places, s)
  | more + 1 =>
    match _h : Source.below size s with
    | none => none
    | some (j, s) =>
      if size ≤ j then none
      else if places.contains j then drawPlaces size (more + 1) places s
      else drawPlaces size more (places.push j) s
termination_by Source.size s
decreasing_by all_goals exact Source.size_lt_of_below _h

/-- The largest population out of which so many elements are drawn by a pool. The bound
weighs a pool of all elements against a table of the drawn places, whose size is the
least power of four that is not below three times their number. -/
def poolLimit (count : Nat) : Nat :=
  if count ≤ 5 then 21 else 21 + Nat.pow 4 (((3 * count - 1).log2 + 2) / 2)

/-- So many different elements in random order. -/
def sample (count : Nat) (xs : Array α) : Draw σ (List α) := fun s =>
  if xs.size ≤ poolLimit count then
    (drawOut count #[] xs s).map fun ((taken, _), s) => (taken.toList, s)
  else
    (drawPlaces xs.size count #[] s).map fun (places, s) =>
      (places.toList.filterMap (xs[·]?), s)

/-! ## With replacement -/

/-- Draws so many elements, any of them again and again, after those taken before. -/
def drawAgain (xs : Array α) (count : Nat) (taken : Array α) (s : σ) :
    Option (Array α × σ) :=
  match count with
  | 0 => some (taken, s)
  | more + 1 =>
    match Source.below xs.size s with
    | none => none
    | some (j, s) =>
      match xs[j]? with
      | none => none
      | some x => drawAgain xs more (taken.push x) s

/-! ## Picks -/

def pickCount (options : Options) (population : Nat) : Nat :=
  if population = 0 then 0
  else if options.repeating then options.count population
  else min (options.count population) population

variable {κ : Type} [LE κ] [DecidableLE κ]

/-- Elements in the order of their keys; equal keys keep their order. -/
def sortByKey (key : α → κ) (xs : List α) : List α :=
  xs.mergeSort fun x y => key x ≤ key y

/-- Picks elements as the options say, in the order in which they are to be evaluated. A
whole population that keeps its order needs no draw. -/
def select (key : α → κ) (options : Options) (xs : Array α) : Draw σ (List α) := fun s =>
  let count := options.count xs.size
  let ordered := fun (picks : List α) =>
    if options.keepOrder then sortByKey key picks else picks
  if xs.isEmpty then some ([], s)
  else if options.repeating then
    (drawAgain xs count #[] s).map fun (taken, s) => (ordered taken.toList, s)
  else if count < xs.size then
    (sample count xs s).map fun (picks, s) => (ordered picks, s)
  else if options.keepOrder then some (xs.toList, s)
  else shuffle xs s

end Lots.Selection
