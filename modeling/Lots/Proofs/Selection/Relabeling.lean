import Lots.Selection

/-!
# Lots — picks of relabeled elements

Picks are made by places. So a population whose elements are replaced, each by its image
under one function, gives the images of the picks, from the same draws and with the same
source afterwards. Only the order of keys must be the same, since sorting compares them
(`select_map`). In particular every pick is an element of the population
(`mem_of_mem_select`).

The lemmas follow the ways to pick: out of a pool, by a table of places, and again and
again out of the whole population.
-/

namespace Lots.Selection

variable {σ α β : Type} [Source σ] (f : α → β)

theorem takeOut_map (pool : Array α) (j : Nat) :
    takeOut (pool.map f) j = (takeOut pool j).map fun (x, rest) => (f x, rest.map f) := by
  by_cases h : j < pool.size
  · simp [takeOut, h]
  · simp [takeOut, h]

theorem drawOut_map (count : Nat) (taken pool : Array α) (s : σ) :
    drawOut count (taken.map f) (pool.map f) s =
      (drawOut count taken pool s).map fun ((taken, rest), s) =>
        ((taken.map f, rest.map f), s) := by
  induction count generalizing taken pool s with
  | zero => rfl
  | succ more ih =>
    simp only [drawOut, Array.size_map, takeOut_map]
    -- the draw depends on the size of the pool only, and both pools have one size
    cases Source.below pool.size s with
    | none => rfl
    | some drawn =>
      obtain ⟨j, s'⟩ := drawn
      cases hout : takeOut pool j with
      | none => simp only [hout, Option.map_none]
      | some out =>
        obtain ⟨x, rest⟩ := out
        simp only [hout, Option.map_some]
        rw [← Array.map_push, ih]

theorem shuffle_map (xs : Array α) (s : σ) :
    shuffle (xs.map f) s = (shuffle xs s).map fun (picks, s) => (picks.map f, s) := by
  have hdraw := drawOut_map f (xs.size - 1) #[] xs s
  simp only [List.map_toArray, List.map_nil] at hdraw
  simp only [shuffle, Array.size_map, hdraw, Option.map_map]
  congr 1
  funext drawn
  simp

theorem sample_map (count : Nat) (xs : Array α) (s : σ) :
    sample count (xs.map f) s = (sample count xs s).map fun (picks, s) => (picks.map f, s) := by
  have hdraw := drawOut_map f count #[] xs s
  simp only [List.map_toArray, List.map_nil] at hdraw
  simp only [sample, Array.size_map]
  split
  · simp only [hdraw, Option.map_map]
    congr 1
    funext drawn
    simp
  · -- the places are drawn without a look at the elements
    simp only [Option.map_map]
    congr 1
    funext drawn
    simp [List.map_filterMap]

theorem drawAgain_map (xs : Array α) (count : Nat) (taken : Array α) (s : σ) :
    drawAgain (xs.map f) count (taken.map f) s =
      (drawAgain xs count taken s).map fun (taken, s) => (taken.map f, s) := by
  induction count generalizing taken s with
  | zero => rfl
  | succ more ih =>
    simp only [drawAgain, Array.size_map]
    cases Source.below xs.size s with
    | none => rfl
    | some drawn =>
      obtain ⟨j, s'⟩ := drawn
      simp only [Array.getElem?_map]
      cases xs[j]? with
      | none => simp only [Option.map_none]
      | some x =>
        simp only [Option.map_some]
        rw [← Array.map_push, ih]

variable {κ ι : Type} [LE κ] [DecidableLE κ] [LE ι] [DecidableLE ι]

theorem sortByKey_map {key : α → κ} {key' : β → ι}
    (hkey : ∀ x y, key' (f x) ≤ key' (f y) ↔ key x ≤ key y) (xs : List α) :
    sortByKey key' (xs.map f) = (sortByKey key xs).map f := by
  unfold sortByKey
  rw [List.map_mergeSort]
  intro x _ y _
  simp [hkey]

/-- **Picks of relabeled elements are the relabeled picks**, if the keys of the elements are
in the same order. -/
theorem select_map {key : α → κ} {key' : β → ι}
    (hkey : ∀ x y, key' (f x) ≤ key' (f y) ↔ key x ≤ key y) (options : Options) (xs : Array α)
    (s : σ) :
    select key' options (xs.map f) s =
      (select key options xs s).map fun (picks, s) => (picks.map f, s) := by
  have hordered : ∀ picks : List α,
      (if options.keepOrder then sortByKey key' (picks.map f) else picks.map f) =
        (if options.keepOrder then sortByKey key picks else picks).map f := by
    intro picks
    split
    · exact sortByKey_map f hkey picks
    · rfl
  have hempty : (xs.map f).isEmpty = xs.isEmpty := by simp [Array.isEmpty]
  -- one case for each way to pick, in the order in which `select` tries them
  simp only [select, Array.size_map, hempty]
  by_cases hnone : xs.isEmpty = true
  · rw [if_pos hnone, if_pos hnone]
    rfl
  rw [if_neg hnone, if_neg hnone]
  by_cases hrepeating : options.repeating = true
  · rw [if_pos hrepeating, if_pos hrepeating]
    have hagain := drawAgain_map f xs (options.count xs.size) #[] s
    simp only [List.map_toArray, List.map_nil] at hagain
    simp only [hagain, Option.map_map]
    congr 1
    funext drawn
    simp [hordered]
  rw [if_neg hrepeating, if_neg hrepeating]
  by_cases hfew : options.count xs.size < xs.size
  · rw [if_pos hfew, if_pos hfew]
    simp only [sample_map, Option.map_map]
    congr 1
    funext drawn
    simp [hordered]
  rw [if_neg hfew, if_neg hfew]
  by_cases hkeep : options.keepOrder = true
  · rw [if_pos hkeep, if_pos hkeep]
    simp
  · rw [if_neg hkeep, if_neg hkeep]
    exact shuffle_map f xs s

omit [LE ι] [DecidableLE ι] in
/-- Picks come out of the population: the elements that carry a proof of it are picked in
the same way. -/
theorem mem_of_mem_select {key : α → κ} {options : Options} {xs : Array α} {picks : List α}
    {s s' : σ} (h : select key options xs s = some (picks, s')) : ∀ x ∈ picks, x ∈ xs := by
  have hkey : ∀ x y : { x // x ∈ xs }, key x.val ≤ key y.val ↔ key x.val ≤ key y.val :=
    fun _ _ => Iff.rfl
  have hmap := select_map Subtype.val hkey options xs.attach s
  rw [Array.attach_map_subtype_val, h] at hmap
  obtain ⟨⟨attached, _⟩, -, hpicks⟩ := Option.map_eq_some_iff.mp hmap.symm
  obtain ⟨rfl, -⟩ := Prod.mk.inj hpicks
  intro x hx
  obtain ⟨y, -, rfl⟩ := List.mem_map.mp hx
  exact y.property

end Lots.Selection
