import Lots.Proofs.Selection.Relabeling
import Mathlib.Data.List.Nodup
import Mathlib.Data.List.Perm.Basic

/-!
# Lots — what is drawn

Each way to draw elements gives as many as are asked for: out of a pool and by places they
stand at different places, with replacement they are any elements.

* **`drawOut_perm`**, **`drawPlaces_new`**, **`drawAgain_new`** — what the three loops add to
  what was taken before; the induction is on the draws, with any elements taken before.
* **`select_cases`** — the ways to pick, with the loop behind each.
* **`length_select`**, **`nodup_select`**, **`exists_places`** — the same for the picks.
* **`select_keepOrder`** — keeping the order sorts what is drawn.
-/

namespace Lots

open scoped List

namespace Selection

/-! ## Out of a pool -/

section

variable {α : Type}

theorem exists_takeOut {pool : Array α} {j : Nat} (h : j < pool.size) :
    ∃ rest, takeOut pool j = some (pool[j], rest) := by
  unfold takeOut
  rw [dif_pos h]
  exact ⟨_, rfl⟩

theorem getElem?_of_takeOut {pool rest : Array α} {j : Nat} {x : α}
    (h : takeOut pool j = some (x, rest)) : pool[j]? = some x := by
  unfold takeOut at h
  split at h
  · next hj =>
    obtain ⟨rfl, -⟩ := Prod.mk.inj (Option.some.inj h)
    exact Array.getElem?_eq_getElem hj
  · cases h

/-- Different elements have one place each. -/
theorem place_unique {xs : Array α} (hxs : xs.toList.Nodup) {i j : Nat} {x : α}
    (hi : xs[i]? = some x) (hj : xs[j]? = some x) : i = j := by
  obtain ⟨hi', rfl⟩ := Array.getElem?_eq_some_iff.mp hi
  obtain ⟨hj', heq⟩ := Array.getElem?_eq_some_iff.mp hj
  exact (hxs.getElem_inj_iff.mp heq).symm

/-- The last element of a row takes the place of another one. -/
theorem set_dropLast_perm {l : List α} {j : Nat} (hj : j < l.length) :
    l[j] :: (l.set j (l[l.length - 1])).dropLast ~ l := by
  -- the last element apart from those before it
  obtain ⟨init, last, rfl⟩ : ∃ init last, l = init ++ [last] := by
    have hne : l ≠ [] := List.ne_nil_of_length_pos (by omega)
    exact ⟨l.dropLast, l.getLast hne, (List.dropLast_concat_getLast hne).symm⟩
  have hlast : (init ++ [last])[(init ++ [last]).length - 1] = last := by simp
  rw [hlast]
  by_cases hinit : j < init.length
  · rw [List.set_append_left _ _ hinit, List.dropLast_concat, List.getElem_append_left hinit]
    have hset : last :: init.eraseIdx j ~ init.set j last := by
      have hj' : j < (init.set j last).length := by simpa using hinit
      have herase := List.getElem_cons_eraseIdx_perm hj'
      rwa [List.getElem_set_self, List.eraseIdx_set_eq] at herase
    calc init[j] :: init.set j last
        ~ init[j] :: last :: init.eraseIdx j := hset.symm.cons _
      _ ~ last :: init[j] :: init.eraseIdx j := .swap ..
      _ ~ last :: init := (List.getElem_cons_eraseIdx_perm hinit).cons _
      _ ~ init ++ [last] := (List.perm_append_singleton last init).symm
  · obtain rfl : j = init.length := by
      simp only [List.length_append, List.length_cons, List.length_nil] at hj
      omega
    simpa using (List.perm_append_singleton last init).symm

/-- An element taken out and the pool that remains are the elements of the pool. -/
theorem takeOut_perm {pool rest : Array α} {j : Nat} {x : α}
    (h : takeOut pool j = some (x, rest)) : x :: rest.toList ~ pool.toList := by
  unfold takeOut at h
  split at h
  · next hj =>
    obtain ⟨rfl, rfl⟩ := Prod.mk.inj (Option.some.inj h)
    simpa using set_dropLast_perm (l := pool.toList) hj
  · cases h

end

variable {σ α : Type} [Source σ]

/-- The first element that is drawn, and the draws that follow. -/
theorem exists_of_drawOut_succ {more : Nat} {taken pool : Array α} {s s' : σ}
    {result : Array α × Array α} (h : drawOut (more + 1) taken pool s = some (result, s')) :
    ∃ j x remaining t, Source.below pool.size s = some (j, t) ∧
      takeOut pool j = some (x, remaining) ∧
      drawOut more (taken.push x) remaining t = some (result, s') := by
  rw [drawOut] at h
  split at h
  · cases h
  next j t hbelow =>
  split at h
  · cases h
  next x remaining hout => exact ⟨j, x, remaining, t, hbelow, hout, h⟩

/-- **Elements drawn out of a pool**, with those that remain, are the elements of the pool. -/
theorem drawOut_perm {count : Nat} {taken taken' pool rest : Array α} {s s' : σ}
    (h : drawOut count taken pool s = some ((taken', rest), s')) :
    ∃ new, taken'.toList = taken.toList ++ new ∧ new.length = count ∧
      new ++ rest.toList ~ pool.toList := by
  induction count generalizing taken pool s with
  | zero =>
    cases h
    exact ⟨[], by simp, rfl, .refl _⟩
  | succ more ih =>
    obtain ⟨j, x, remaining, t, -, hout, hmore⟩ := exists_of_drawOut_succ h
    obtain ⟨new, htaken, hlength, hperm⟩ := ih hmore
    refine ⟨x :: new, ?_, by simp [hlength], ?_⟩
    · rw [htaken, Array.toList_push, List.append_assoc, List.singleton_append]
    · exact (hperm.cons x).trans (takeOut_perm hout)

theorem drawOut_perm_of_empty {count : Nat} {taken pool rest : Array α} {s s' : σ}
    (h : drawOut count #[] pool s = some ((taken, rest), s')) :
    taken.toList.length = count ∧ taken.toList ++ rest.toList ~ pool.toList := by
  obtain ⟨new, htaken, hlength, hperm⟩ := drawOut_perm h
  obtain rfl : taken.toList = new := by simpa using htaken
  exact ⟨hlength, hperm⟩

theorem shuffle_perm {xs : Array α} {picks : List α} {s s' : σ}
    (h : shuffle xs s = some (picks, s')) : picks ~ xs.toList := by
  obtain ⟨⟨⟨taken, rest⟩, t⟩, hdraw, hpicks⟩ := Option.map_eq_some_iff.mp h
  obtain ⟨rfl, rfl⟩ := Prod.mk.inj hpicks
  obtain ⟨-, hperm⟩ := drawOut_perm_of_empty hdraw
  calc rest.toList ++ taken.toList.reverse
      ~ rest.toList ++ taken.toList := (List.reverse_perm _).append_left _
    _ ~ taken.toList ++ rest.toList := List.perm_append_comm
    _ ~ xs.toList := hperm

/-! ## By places -/

/-- **Places that are drawn** are new and different from each other. -/
theorem drawPlaces_new {size count : Nat} {places places' : Array Nat} {s s' : σ}
    (h : drawPlaces size count places s = some (places', s')) :
    ∃ new, places'.toList = places.toList ++ new ∧ new.length = count ∧ new.Nodup ∧
      ∀ j ∈ new, j < size ∧ j ∉ places := by
  fun_induction drawPlaces size count places s with
  | case1 =>
    cases h
    exact ⟨[], by simp, rfl, .nil, nofun⟩
  | case2 => cases h
  | case3 => cases h
  | case4 places s more j t hbelow hsize hcontains ih => exact ih h
  | case5 places s more j t hbelow hsize hcontains ih =>
    obtain ⟨new, hplaces, hlength, hnodup, hnew⟩ := ih h
    have hj : j ∉ places := by simpa using hcontains
    refine ⟨j :: new, ?_, by simp [hlength], ?_, ?_⟩
    · rw [hplaces, Array.toList_push, List.append_assoc, List.singleton_append]
    · refine List.nodup_cons.mpr ⟨fun hmem => ?_, hnodup⟩
      exact (hnew j hmem).2 Array.mem_push_self
    · intro i hi
      rcases List.mem_cons.mp hi with rfl | hmem
      · exact ⟨by omega, hj⟩
      · have hi := hnew i hmem
        exact ⟨hi.1, fun hold => hi.2 (Array.mem_push_of_mem j hold)⟩

theorem drawPlaces_of_empty {size count : Nat} {places : Array Nat} {s s' : σ}
    (h : drawPlaces size count #[] s = some (places, s')) :
    places.toList.length = count ∧ places.toList.Nodup ∧ ∀ j ∈ places.toList, j < size := by
  obtain ⟨new, hplaces, hlength, hnodup, hnew⟩ := drawPlaces_new h
  obtain rfl : places.toList = new := by simpa using hplaces
  exact ⟨hlength, hnodup, fun j hj => (hnew j hj).1⟩

/-! ## Samples -/

/-- There is an element at each place. -/
theorem length_filterMap_places {xs : Array α} {places : List Nat}
    (hplaces : ∀ j ∈ places, j < xs.size) :
    (places.filterMap (xs[·]?)).length = places.length := by
  rw [List.length_filterMap_eq_countP, List.countP_eq_length]
  intro j hj
  simp [hplaces j hj]

/-- Different elements are at different places. -/
theorem nodup_filterMap_places {xs : Array α} (hxs : xs.toList.Nodup) {places : List Nat}
    (hplaces : places.Nodup) : (places.filterMap (xs[·]?)).Nodup := by
  refine hplaces.filterMap ?_
  intro i j x hi hj
  exact place_unique hxs hi hj

theorem length_sample {count : Nat} {xs : Array α} {picks : List α} {s s' : σ}
    (h : sample count xs s = some (picks, s')) : picks.length = count := by
  unfold sample at h
  split at h
  · obtain ⟨⟨⟨taken, rest⟩, t⟩, hdraw, hpicks⟩ := Option.map_eq_some_iff.mp h
    obtain ⟨rfl, rfl⟩ := Prod.mk.inj hpicks
    exact (drawOut_perm_of_empty hdraw).1
  · obtain ⟨⟨places, t⟩, hdraw, hpicks⟩ := Option.map_eq_some_iff.mp h
    obtain ⟨rfl, rfl⟩ := Prod.mk.inj hpicks
    obtain ⟨hlength, -, hplaces⟩ := drawPlaces_of_empty hdraw
    rw [length_filterMap_places hplaces, hlength]

/-- Different elements are drawn once each. -/
theorem nodup_sample {count : Nat} {xs : Array α} {picks : List α} {s s' : σ}
    (h : sample count xs s = some (picks, s')) (hxs : xs.toList.Nodup) : picks.Nodup := by
  unfold sample at h
  split at h
  · obtain ⟨⟨⟨taken, rest⟩, t⟩, hdraw, hpicks⟩ := Option.map_eq_some_iff.mp h
    obtain ⟨rfl, rfl⟩ := Prod.mk.inj hpicks
    obtain ⟨-, hperm⟩ := drawOut_perm_of_empty hdraw
    exact (hperm.nodup_iff.mpr hxs).of_append_left
  · obtain ⟨⟨places, t⟩, hdraw, hpicks⟩ := Option.map_eq_some_iff.mp h
    obtain ⟨rfl, rfl⟩ := Prod.mk.inj hpicks
    obtain ⟨-, hnodup, -⟩ := drawPlaces_of_empty hdraw
    exact nodup_filterMap_places hxs hnodup

/-! ## Again and again -/

/-- The first element that is drawn, and the draws that follow. -/
theorem exists_of_drawAgain_succ {more : Nat} {xs taken taken' : Array α} {s s' : σ}
    (h : drawAgain xs (more + 1) taken s = some (taken', s')) :
    ∃ j x t, Source.below xs.size s = some (j, t) ∧ xs[j]? = some x ∧
      drawAgain xs more (taken.push x) t = some (taken', s') := by
  rw [drawAgain] at h
  split at h
  · cases h
  next j t hbelow =>
  split at h
  · cases h
  next x hx => exact ⟨j, x, t, hbelow, hx, h⟩

/-- **Elements drawn with replacement** are any elements. -/
theorem drawAgain_new {count : Nat} {xs taken taken' : Array α} {s s' : σ}
    (h : drawAgain xs count taken s = some (taken', s')) :
    ∃ new, taken'.toList = taken.toList ++ new ∧ new.length = count ∧ ∀ x ∈ new, x ∈ xs := by
  induction count generalizing taken s with
  | zero =>
    cases h
    exact ⟨[], by simp, rfl, nofun⟩
  | succ more ih =>
    obtain ⟨j, x, t, -, hx, hmore⟩ := exists_of_drawAgain_succ h
    obtain ⟨new, htaken, hlength, hmem⟩ := ih hmore
    refine ⟨x :: new, ?_, by simp [hlength], ?_⟩
    · rw [htaken, Array.toList_push, List.append_assoc, List.singleton_append]
    · exact List.forall_mem_cons.mpr ⟨Array.mem_of_getElem? hx, hmem⟩

theorem drawAgain_of_empty {count : Nat} {xs taken : Array α} {s s' : σ}
    (h : drawAgain xs count #[] s = some (taken, s')) :
    taken.toList.length = count ∧ ∀ x ∈ taken.toList, x ∈ xs := by
  obtain ⟨new, htaken, hlength, hmem⟩ := drawAgain_new h
  obtain rfl : taken.toList = new := by simpa using htaken
  exact ⟨hlength, hmem⟩

/-! ## Picks -/

variable {κ : Type} [LE κ] [DecidableLE κ] {key : α → κ} {options : Options} {xs : Array α}
  {picks : List α} {s s' : σ}

/-- Picks in their order, if the options keep it. -/
def arrange (key : α → κ) (options : Options) (picks : List α) : List α :=
  if options.keepOrder then sortByKey key picks else picks

/-- **The ways to pick.** Nothing is picked out of nothing. Otherwise elements are drawn with
replacement, or some of them without, or all of them; and unless all are drawn, keeping the
order sorts the picks. -/
theorem select_cases (key : α → κ) (options : Options) (xs : Array α) (s : σ) :
    (xs = #[] ∧ select key options xs s = some ([], s)) ∨
      (0 < xs.size ∧ options.repeating = true ∧ select key options xs s =
        (drawAgain xs (options.count xs.size) #[] s).map fun (taken, s) =>
          (arrange key options taken.toList, s)) ∨
      (options.repeating = false ∧ options.count xs.size < xs.size ∧ select key options xs s =
        (sample (options.count xs.size) xs s).map fun (picks, s) =>
          (arrange key options picks, s)) ∨
      (0 < xs.size ∧ options.repeating = false ∧ xs.size ≤ options.count xs.size ∧
        select key options xs s =
          if options.keepOrder then some (xs.toList, s) else shuffle xs s) := by
  by_cases hempty : xs = #[]
  · subst hempty
    exact .inl ⟨rfl, rfl⟩
  have hsize : 0 < xs.size := Array.size_pos_iff.mpr hempty
  right
  cases hrepeating : options.repeating with
  | true => exact .inl ⟨hsize, rfl, by simp [select, hempty, hrepeating, arrange]⟩
  | false =>
    right
    by_cases hfew : options.count xs.size < xs.size
    · exact .inl ⟨rfl, hfew, by simp [select, hempty, hrepeating, hfew, arrange]⟩
    · exact .inr ⟨hsize, rfl, by omega, by simp [select, hempty, hrepeating, hfew]⟩

theorem arrange_perm (picks : List α) : arrange key options picks ~ picks := by
  unfold arrange
  split
  · exact List.mergeSort_perm picks _
  · exact .refl _

theorem length_select (h : select key options xs s = some (picks, s')) :
    picks.length = pickCount options xs.size := by
  rcases select_cases key options xs s with ⟨rfl, heq⟩ | ⟨hpos, hrepeating, heq⟩ |
    ⟨hrepeating, hfew, heq⟩ | ⟨hpos, hrepeating, hall, heq⟩ <;> rw [heq] at h
  · cases h
    rfl
  · obtain ⟨⟨taken, t⟩, hdraw, hpicks⟩ := Option.map_eq_some_iff.mp h
    obtain ⟨rfl, rfl⟩ := Prod.mk.inj hpicks
    obtain ⟨hlength, -⟩ := drawAgain_of_empty hdraw
    rw [(arrange_perm _).length_eq, hlength, pickCount, if_neg (by omega), if_pos hrepeating]
  · obtain ⟨⟨drawn, t⟩, hdraw, hpicks⟩ := Option.map_eq_some_iff.mp h
    obtain ⟨rfl, rfl⟩ := Prod.mk.inj hpicks
    rw [(arrange_perm _).length_eq, length_sample hdraw, pickCount]
    simp [hrepeating, Nat.min_eq_left (Nat.le_of_lt hfew), Nat.ne_zero_of_lt hfew]
  · have hperm : picks ~ xs.toList := by
      split at h
      · cases h
        exact .refl _
      · exact shuffle_perm h
    rw [hperm.length_eq, pickCount]
    simp [hrepeating, Nat.min_eq_right hall, Nat.ne_zero_of_lt hpos]

/-- Without replacement different elements are picked once each. -/
theorem nodup_select (h : select key options xs s = some (picks, s'))
    (hrepeating : options.repeating = false) (hxs : xs.toList.Nodup) : picks.Nodup := by
  rcases select_cases key options xs s with ⟨rfl, heq⟩ | ⟨-, hnot, -⟩ |
    ⟨-, hfew, heq⟩ | ⟨hpos, -, hall, heq⟩
  · rw [heq] at h
    cases h
    exact .nil
  · simp [hrepeating] at hnot
  · rw [heq] at h
    obtain ⟨⟨drawn, t⟩, hdraw, hpicks⟩ := Option.map_eq_some_iff.mp h
    obtain ⟨rfl, rfl⟩ := Prod.mk.inj hpicks
    exact (arrange_perm _).nodup_iff.mpr (nodup_sample hdraw hxs)
  · rw [heq] at h
    split at h
    · cases h
      exact hxs
    · exact (shuffle_perm h).nodup_iff.mpr hxs

/-- Without replacement picks stand at different places: places are picked as their elements
are, and no place is picked twice. -/
theorem exists_places (h : select key options xs s = some (picks, s'))
    (hrepeating : options.repeating = false) :
    ∃ places : List (Fin xs.size), places.Nodup ∧ picks = places.map (xs[·]) := by
  have hxs : (Array.finRange xs.size).map (fun i => xs[i]) = xs := by
    apply Array.ext
    · simp
    · simp
  have hkey : ∀ i j : Fin xs.size, key xs[i] ≤ key xs[j] ↔ key xs[i] ≤ key xs[j] :=
    fun _ _ => Iff.rfl
  have hmap := select_map (fun i : Fin xs.size => xs[i]) hkey options (Array.finRange xs.size) s
  rw [hxs, h] at hmap
  obtain ⟨⟨places, t⟩, hplaces, heq⟩ := Option.map_eq_some_iff.mp hmap.symm
  obtain ⟨rfl, -⟩ := Prod.mk.inj heq
  have hnodup : (Array.finRange xs.size).toList.Nodup := by
    simpa [Array.finRange, List.finRange] using List.nodup_finRange xs.size
  exact ⟨places, nodup_select hplaces hrepeating hnodup, rfl⟩

/-- Keeping the order sorts the picks and draws the same, unless all elements are picked. -/
theorem select_keepOrder (key : α → κ) (s : σ)
    (h : options.repeating = true ∨ options.count xs.size < xs.size) :
    select key { options with keepOrder := true } xs s =
      (select key { options with keepOrder := false } xs s).map fun (picks, s) =>
        (sortByKey key picks, s) := by
  by_cases hempty : xs = #[]
  · simp [select, hempty, sortByKey]
  by_cases hrepeating : options.repeating = true
  · simp [select, hempty, hrepeating, Options.count, Function.comp_def]
  · have hfew := h.resolve_left hrepeating
    rw [Options.count] at hfew
    simp [select, hempty, hrepeating, Options.count, hfew]

end Selection

end Lots
