import Lots.Proofs.Selection.Drawing
import Lots.Source.Tape
import Mathlib.Data.List.Forall2
import Mathlib.Logic.Equiv.Basic
import Mathlib.Tactic.Choose

/-!
# Lots — draws and what they draw

The draws below given bounds and the elements that they draw determine each other. Three
facts say so of each way to draw:

* whatever is drawn, one number below each bound, gives elements (`drawOut_taped`,
  `drawPlaces_taped`, `drawAgain_taped`);
* whatever elements can be drawn are drawn by some numbers (`exists_drawOut`,
  `exists_drawAgain`, `exists_places_of_nodup`);
* different draws give different elements (`drawOut_injective`, `drawAgain_injective`,
  `filterMap_places_injective`), if the elements that they are drawn out of are different.

The tapes tie the draws to the bounds that are asked for: other requests are not answered.
Together the facts are `Pairs`; **`pairs_drawn`** states them of the picks. A place that is
drawn again does not count (**`select_redrawn`**).
-/

namespace Lots.Selection

open scoped List

variable {α : Type}

/-- The element that is taken next stands after those taken before. -/
theorem eq_of_push {taken : Array α} {x x' : α} {new new' : List α}
    (h : (taken.push x).toList ++ new = (taken.push x').toList ++ new') : x = x' := by
  simp only [Array.toList_push, List.append_assoc, List.append_cancel_left_eq] at h
  exact (List.cons.inj h).1

/-! ## Out of a pool -/

/-- So many bounds, each one less than the one before. -/
def countdown (bound : Nat) : Nat → List Nat
  | 0 => []
  | more + 1 => bound :: countdown (bound - 1) more

theorem pred_size_of_takeOut {pool rest : Array α} {j : Nat} {x : α}
    (h : takeOut pool j = some (x, rest)) : pool.size - 1 = rest.size := by
  have hsize := size_of_takeOut h
  omega

theorem drawOut_taped {count : Nat} (taken : Array α) {pool : Array α} {draws : List Nat}
    (hdraws : List.Forall₂ (· < ·) draws (countdown pool.size count)) :
    ∃ taken' rest, drawOut count taken pool (Tape.below draws (countdown pool.size count)) =
      some ((taken', rest), ⟨[]⟩) := by
  induction count generalizing taken pool draws with
  | zero =>
    cases hdraws
    exact ⟨taken, pool, rfl⟩
  | succ more ih =>
    cases hdraws with
    | @cons j _ draws _ hj hrest =>
      obtain ⟨remaining, hout⟩ := exists_takeOut hj
      -- the pool that remains has the next bound as its size
      have hsize := pred_size_of_takeOut hout
      rw [hsize] at hrest
      obtain ⟨taken', rest, hdraw⟩ := ih (taken.push pool[j]) hrest
      refine ⟨taken', rest, ?_⟩
      rw [drawOut, countdown, Tape.below_cons hj]
      simp only [hout, hsize]
      exact hdraw

theorem exists_drawOut {new : List α} (taken : Array α) {pool : Array α}
    (hnew : new <+~ pool.toList) :
    ∃ draws, List.Forall₂ (· < ·) draws (countdown pool.size new.length) ∧
      ∃ rest, drawOut new.length taken pool
        (Tape.below draws (countdown pool.size new.length)) =
          some ((taken ++ new.toArray, rest), ⟨[]⟩) := by
  induction new generalizing taken pool with
  | nil => exact ⟨[], .nil, pool, by simp [drawOut, countdown, Tape.below]⟩
  | cons x more ih =>
    -- the place of the first element is the first draw
    obtain ⟨j, hj, hx⟩ := Array.getElem_of_mem (Array.mem_toList_iff.mp
      (hnew.subset List.mem_cons_self))
    obtain ⟨remaining, hout⟩ := exists_takeOut hj
    have hsize := pred_size_of_takeOut hout
    subst hx
    have hmore : more <+~ remaining.toList := by
      have hperm := takeOut_perm hout
      exact (List.subperm_cons _).mp (hnew.trans hperm.symm.subperm)
    obtain ⟨draws, hdraws, rest, hdraw⟩ := ih (taken.push pool[j]) hmore
    refine ⟨j :: draws, ?_, rest, ?_⟩
    · rw [List.length_cons, countdown, hsize]
      exact .cons hj hdraws
    · rw [List.length_cons, drawOut, countdown, Tape.below_cons hj]
      simp only [hout, hsize]
      rw [hdraw]
      simp

/-- Elements that are drawn out of different ones tell the draws: the first one tells its
place, and what remains of the pool with it. -/
theorem drawOut_injective {count : Nat} {taken taken' pool rest rest' : Array α}
    {s s' t : Tape} (hpool : pool.toList.Nodup)
    (h : drawOut count taken pool s = some ((taken', rest), t))
    (h' : drawOut count taken pool s' = some ((taken', rest'), t)) : s = s' := by
  induction count generalizing taken pool s s' with
  | zero =>
    cases h
    cases h'
    rfl
  | succ more ih =>
    obtain ⟨j, x, remaining, u, hbelow, hout, hmore⟩ := exists_of_drawOut_succ h
    obtain ⟨j', x', remaining', u', hbelow', hout', hmore'⟩ := exists_of_drawOut_succ h'
    obtain ⟨-, rfl⟩ := Tape.below_eq_some_iff.mp hbelow
    obtain ⟨-, rfl⟩ := Tape.below_eq_some_iff.mp hbelow'
    obtain ⟨new, hnew, -⟩ := drawOut_perm hmore
    obtain ⟨new', hnew', -⟩ := drawOut_perm hmore'
    obtain rfl : x = x' := eq_of_push (hnew.symm.trans hnew')
    obtain rfl : j = j' :=
      place_unique hpool (getElem?_of_takeOut hout) (getElem?_of_takeOut hout')
    obtain ⟨-, rfl⟩ := Prod.mk.inj (Option.some.inj (hout.symm.trans hout'))
    have hremaining : remaining.toList.Nodup :=
      (List.nodup_cons.mp ((takeOut_perm hout).nodup_iff.mpr hpool)).2
    rw [ih hremaining hmore hmore']

/-! ## By places -/

/-- Different places below the size, none of them drawn before, are their own draws. -/
theorem drawPlaces_taped {size : Nat} (places : Array Nat) {draws : List Nat}
    (hdraws : ∀ j ∈ draws, j < size ∧ j ∉ places) (hnodup : draws.Nodup) :
    drawPlaces size draws.length places
      (Tape.below draws (List.replicate draws.length size)) =
        some (places ++ draws.toArray, ⟨[]⟩) := by
  induction draws generalizing places with
  | nil => simp [drawPlaces, Tape.below]
  | cons j rest ih =>
    obtain ⟨⟨hj, hnew⟩, hrest⟩ := List.forall_mem_cons.mp hdraws
    obtain ⟨hother, hnodup⟩ := List.nodup_cons.mp hnodup
    have hrest' : ∀ i ∈ rest, i < size ∧ i ∉ places.push j := by
      intro i hi
      refine ⟨(hrest i hi).1, fun hmem => ?_⟩
      rcases Array.mem_push.mp hmem with hold | rfl
      · exact (hrest i hi).2 hold
      · exact hother hi
    have hbelow := Tape.below_cons hj rest (List.replicate rest.length size)
    rw [List.length_cons, List.replicate_succ, drawPlaces, hbelow]
    simp only [Nat.not_le.mpr hj, hnew, if_false, Array.contains_iff_mem]
    rw [ih (places.push j) hrest' hnodup]
    simp

/-- Of places that are drawn again and again the first of each count, as many as are asked
for. -/
theorem drawPlaces_redrawn {size count : Nat} (places : Array Nat) {draws : List Nat}
    (hdraws : ∀ j ∈ draws, j < size)
    (hcount : count ≤ (draws.filter fun j => !places.contains j).eraseDups.length) :
    ∃ rest, drawPlaces size count places
      (Tape.below draws (List.replicate draws.length size)) =
        some (places ++
          ((draws.filter fun j => !places.contains j).eraseDups.take count).toArray, rest) := by
  induction draws generalizing count places with
  | nil =>
    obtain rfl : count = 0 := by simpa using hcount
    exact ⟨⟨[]⟩, by simp [drawPlaces, Tape.below]⟩
  | cons j rest ih =>
    cases count with
    | zero => exact ⟨_, by rw [drawPlaces, List.take_zero, Array.append_empty]⟩
    | succ more =>
      obtain ⟨hj, hrest⟩ := List.forall_mem_cons.mp hdraws
      have hbelow := Tape.below_cons hj rest (List.replicate rest.length size)
      rw [List.length_cons, List.replicate_succ, drawPlaces, hbelow]
      simp only [Nat.not_le.mpr hj, if_false]
      by_cases hold : places.contains j = true
      · -- the place was drawn before
        rw [List.filter_cons_of_neg (by simpa using hold)] at hcount ⊢
        rw [if_pos hold]
        exact ih places hrest hcount
      · have hfilter : ((j :: rest).filter fun i => !places.contains i).eraseDups =
            j :: (rest.filter fun i => !(places.push j).contains i).eraseDups := by
          rw [List.filter_cons_of_pos (by simpa using hold), List.eraseDups_cons,
            List.filter_filter]
          congr 3
          funext i
          simp [Bool.and_comm, beq_eq_decide]
        rw [hfilter, List.length_cons] at hcount
        obtain ⟨t, hdraw⟩ := ih (places.push j) hrest (Nat.le_of_succ_le_succ hcount)
        refine ⟨t, ?_⟩
        rw [if_neg hold, hdraw, hfilter, List.take_succ_cons]
        simp

/-! ## Again and again -/

theorem drawAgain_taped {xs : Array α} {count : Nat} (taken : Array α) {draws : List Nat}
    (hdraws : List.Forall₂ (· < ·) draws (List.replicate count xs.size)) :
    ∃ taken', drawAgain xs count taken
      (Tape.below draws (List.replicate count xs.size)) = some (taken', ⟨[]⟩) := by
  induction count generalizing taken draws with
  | zero =>
    cases hdraws
    exact ⟨taken, rfl⟩
  | succ more ih =>
    rw [List.replicate_succ] at hdraws
    cases hdraws with
    | @cons j _ draws _ hj hrest =>
      obtain ⟨taken', hdraw⟩ := ih (taken.push xs[j]) hrest
      refine ⟨taken', ?_⟩
      rw [drawAgain, List.replicate_succ, Tape.below_cons hj]
      simp only [Array.getElem?_eq_getElem hj]
      exact hdraw

theorem exists_drawAgain {xs : Array α} {new : List α} (taken : Array α)
    (hnew : ∀ x ∈ new, x ∈ xs) :
    ∃ draws, List.Forall₂ (· < ·) draws (List.replicate new.length xs.size) ∧
      drawAgain xs new.length taken
        (Tape.below draws (List.replicate new.length xs.size)) =
          some (taken ++ new.toArray, ⟨[]⟩) := by
  induction new generalizing taken with
  | nil => exact ⟨[], .nil, by simp [drawAgain, Tape.below]⟩
  | cons x more ih =>
    obtain ⟨hx, hmore⟩ := List.forall_mem_cons.mp hnew
    obtain ⟨j, hj, rfl⟩ := Array.getElem_of_mem hx
    obtain ⟨draws, hdraws, hdraw⟩ := ih (taken.push xs[j]) hmore
    refine ⟨j :: draws, ?_, ?_⟩
    · rw [List.length_cons, List.replicate_succ]
      exact .cons hj hdraws
    · rw [List.length_cons, List.replicate_succ, drawAgain, Tape.below_cons hj]
      simp only [Array.getElem?_eq_getElem hj]
      rw [hdraw]
      simp

theorem drawAgain_injective {xs : Array α} {count : Nat} {taken taken' : Array α}
    {s s' t : Tape} (hxs : xs.toList.Nodup)
    (h : drawAgain xs count taken s = some (taken', t))
    (h' : drawAgain xs count taken s' = some (taken', t)) : s = s' := by
  induction count generalizing taken s s' with
  | zero =>
    cases h
    cases h'
    rfl
  | succ more ih =>
    obtain ⟨j, x, u, hbelow, hx, hmore⟩ := exists_of_drawAgain_succ h
    obtain ⟨j', x', u', hbelow', hx', hmore'⟩ := exists_of_drawAgain_succ h'
    obtain ⟨-, rfl⟩ := Tape.below_eq_some_iff.mp hbelow
    obtain ⟨-, rfl⟩ := Tape.below_eq_some_iff.mp hbelow'
    obtain ⟨new, hnew, -⟩ := drawAgain_new hmore
    obtain ⟨new', hnew', -⟩ := drawAgain_new hmore'
    obtain rfl : x = x' := eq_of_push (hnew.symm.trans hnew')
    obtain rfl : j = j' := place_unique hxs hx hx'
    rw [ih hmore hmore']

/-! ## Places and elements -/

variable {xs : Array α}

theorem filterMap_place_cons {j : Nat} (hj : j < xs.size) (places : List Nat) :
    (j :: places).filterMap (xs[·]?) = xs[j] :: places.filterMap (xs[·]?) :=
  List.filterMap_cons_some (Array.getElem?_eq_getElem hj)

/-- Different elements are the elements at some places. -/
theorem exists_places_of_nodup {picks : List α} (hpicks : picks.Nodup)
    (hmem : ∀ x ∈ picks, x ∈ xs) :
    ∃ places : List Nat, (∀ j ∈ places, j < xs.size) ∧ places.Nodup ∧
      places.filterMap (xs[·]?) = picks := by
  induction picks with
  | nil => exact ⟨[], nofun, .nil, rfl⟩
  | cons x more ih =>
    obtain ⟨hother, hmore⟩ := List.nodup_cons.mp hpicks
    obtain ⟨hx, hrest⟩ := List.forall_mem_cons.mp hmem
    obtain ⟨j, hj, rfl⟩ := Array.getElem_of_mem hx
    obtain ⟨places, hplaces, hnodup, rfl⟩ := ih hmore hrest
    refine ⟨j :: places, List.forall_mem_cons.mpr ⟨hj, hplaces⟩, ?_, filterMap_place_cons hj _⟩
    refine List.nodup_cons.mpr ⟨fun hmem => hother ?_, hnodup⟩
    exact List.mem_filterMap.mpr ⟨j, hmem, Array.getElem?_eq_getElem hj⟩

/-- Different elements tell the places that they are at. -/
theorem filterMap_places_injective (hxs : xs.toList.Nodup) {places places' : List Nat}
    (hplaces : ∀ j ∈ places, j < xs.size) (hplaces' : ∀ j ∈ places', j < xs.size)
    (h : places.filterMap (xs[·]?) = places'.filterMap (xs[·]?)) : places = places' := by
  induction places generalizing places' with
  | nil =>
    cases places' with
    | nil => rfl
    | cons j' more' =>
      rw [filterMap_place_cons (hplaces' j' List.mem_cons_self)] at h
      cases h
  | cons j more ih =>
    obtain ⟨hj, hmore⟩ := List.forall_mem_cons.mp hplaces
    rw [filterMap_place_cons hj] at h
    cases places' with
    | nil => cases h
    | cons j' more' =>
      obtain ⟨hj', hmore'⟩ := List.forall_mem_cons.mp hplaces'
      rw [filterMap_place_cons hj'] at h
      obtain ⟨hx, hrest⟩ := List.cons.inj h
      obtain rfl : j = j' := hxs.getElem_inj_iff.mp hx
      rw [ih hmore hmore' hrest]

/-! ## Pairs -/

theorem forall₂_replicate_iff {draws : List Nat} {count size : Nat} :
    List.Forall₂ (· < ·) draws (List.replicate count size) ↔
      draws.length = count ∧ ∀ j ∈ draws, j < size := by
  induction draws generalizing count with
  | nil => cases count <;> simp [List.replicate_succ]
  | cons j rest ih =>
    cases count with
    | zero => simp
    | succ more =>
      rw [List.replicate_succ, List.forall₂_cons, ih]
      simp only [List.length_cons, List.forall_mem_cons, Nat.add_right_cancel_iff]
      exact and_left_comm

/-- Some draws and some rows of elements go in pairs: each of the draws gives one of the
rows, and each of the rows comes from one of the draws. -/
structure Pairs (accepted : List Nat → Prop) (outcome : List α → Prop)
    (gives : List Nat → List α → Prop) : Prop where
  exists_outcome : ∀ draws, accepted draws → ∃ picks, outcome picks ∧ gives draws picks
  exists_draws : ∀ picks, outcome picks → ∃ draws, accepted draws ∧ gives draws picks
  injective : ∀ draws draws' picks, accepted draws → accepted draws' →
    gives draws picks → gives draws' picks → draws = draws'

theorem Pairs.congr {accepted accepted' : List Nat → Prop} {outcome outcome' : List α → Prop}
    {gives gives' : List Nat → List α → Prop} (h : Pairs accepted outcome gives)
    (haccepted : ∀ draws, accepted' draws ↔ accepted draws)
    (houtcome : ∀ picks, outcome' picks ↔ outcome picks)
    (hgives : ∀ draws picks, gives' draws picks ↔ gives draws picks) :
    Pairs accepted' outcome' gives' := by
  obtain rfl : accepted' = accepted := funext fun draws => propext (haccepted draws)
  obtain rfl : outcome' = outcome := funext fun picks => propext (houtcome picks)
  obtain rfl : gives' = gives :=
    funext fun draws => funext fun picks => propext (hgives draws picks)
  exact h

/-- What goes in pairs is equally many. -/
theorem Pairs.exists_equiv {accepted : List Nat → Prop} {outcome : List α → Prop}
    {gives : List Nat → List α → Prop} (h : Pairs accepted outcome gives)
    (hgives : ∀ draws picks picks', gives draws picks → gives draws picks' → picks = picks') :
    ∃ e : {draws // accepted draws} ≃ {picks // outcome picks},
      ∀ draws : {draws // accepted draws}, gives draws (e draws) := by
  choose f hf using fun draws : {draws // accepted draws} => h.exists_outcome draws draws.2
  let result (draws : {draws // accepted draws}) : {picks // outcome picks} :=
    ⟨f draws, (hf draws).1⟩
  have hresult : Function.Bijective result := by
    constructor
    · intro draws draws' heq
      have hsame : f draws = f draws' := congrArg Subtype.val heq
      have hgives' := (hf draws').2
      rw [← hsame] at hgives'
      exact Subtype.ext (h.injective _ _ _ draws.2 draws'.2 (hf draws).2 hgives')
    · rintro ⟨picks, hpicks⟩
      obtain ⟨draws, hdraws, hdrawn⟩ := h.exists_draws picks hpicks
      exact ⟨⟨draws, hdraws⟩, Subtype.ext (hgives _ _ _ (hf ⟨draws, hdraws⟩).2 hdrawn)⟩
  exact ⟨.ofBijective result hresult, fun draws => (hf draws).2⟩

theorem pairs_pool (count : Nat) (hxs : xs.toList.Nodup) :
    Pairs (fun draws => List.Forall₂ (· < ·) draws (countdown xs.size count))
      (fun picks => picks.length = count ∧ picks.Nodup ∧ ∀ x ∈ picks, x ∈ xs)
      (fun draws picks => ∃ taken, (∃ rest, drawOut count #[] xs
        (Tape.below draws (countdown xs.size count)) = some ((taken, rest), ⟨[]⟩)) ∧
          taken.toList = picks) where
  exists_outcome draws hdraws := by
    obtain ⟨taken, rest, hdraw⟩ := drawOut_taped #[] hdraws
    obtain ⟨hlength, hperm⟩ := drawOut_perm_of_empty hdraw
    have hnodup := (hperm.nodup_iff.mpr hxs).of_append_left
    have hmem : ∀ x ∈ taken.toList, x ∈ xs := fun x hx =>
      Array.mem_toList_iff.mp (hperm.subset (List.mem_append_left _ hx))
    exact ⟨taken.toList, ⟨hlength, hnodup, hmem⟩, taken, ⟨rest, hdraw⟩, rfl⟩
  exists_draws picks := by
    rintro ⟨rfl, hnodup, hmem⟩
    have hsubperm : picks <+~ xs.toList :=
      List.subperm_of_subset hnodup fun x hx => Array.mem_toList_iff.mpr (hmem x hx)
    obtain ⟨draws, hdraws, rest, hdraw⟩ := exists_drawOut #[] hsubperm
    exact ⟨draws, hdraws, _, ⟨rest, hdraw⟩, by simp⟩
  injective draws draws' picks hdraws hdraws' := by
    rintro ⟨taken, ⟨rest, hdraw⟩, rfl⟩ ⟨taken', ⟨rest', hdraw'⟩, htaken⟩
    obtain rfl : taken' = taken := Array.toList_inj.mp htaken
    exact Tape.below_injective hdraws.length_eq hdraws'.length_eq
      (drawOut_injective hxs hdraw hdraw')

theorem pairs_shuffle (hxs : xs.toList.Nodup) (hpos : 0 < xs.size) :
    Pairs (fun draws => List.Forall₂ (· < ·) draws (countdown xs.size (xs.size - 1)))
      (fun picks => picks ~ xs.toList)
      (fun draws picks => shuffle xs (Tape.below draws (countdown xs.size (xs.size - 1))) =
        some (picks, ⟨[]⟩)) where
  exists_outcome draws hdraws := by
    obtain ⟨taken, rest, hdraw⟩ := drawOut_taped #[] hdraws
    have hshuffle : shuffle xs (Tape.below draws (countdown xs.size (xs.size - 1))) =
        some (rest.toList ++ taken.toList.reverse, ⟨[]⟩) := by
      rw [shuffle, hdraw]
      rfl
    exact ⟨_, shuffle_perm hshuffle, hshuffle⟩
  exists_draws picks hperm := by
    -- the element that remains comes first
    obtain ⟨first, others, rfl⟩ : ∃ first others, picks = first :: others := by
      apply List.exists_cons_of_length_pos
      rw [hperm.length_eq, Array.length_toList]
      exact hpos
    have hlength : others.reverse.length = xs.size - 1 := by
      have hall := hperm.length_eq
      simp only [List.length_cons, Array.length_toList] at hall
      simp only [List.length_reverse]
      omega
    have hothers : others.reverse ++ [first] ~ xs.toList := by
      rw [← List.reverse_cons]
      exact (List.reverse_perm _).trans hperm
    obtain ⟨draws, hdraws, rest, hdraw⟩ := exists_drawOut #[]
      ((List.sublist_append_left _ _).subperm.trans hothers.subperm)
    rw [hlength] at hdraws hdraw
    obtain ⟨-, hperm'⟩ := drawOut_perm_of_empty hdraw
    have hboth : others.reverse ++ rest.toList ~ others.reverse ++ [first] := by
      simpa using hperm'.trans hothers.symm
    have hrest : rest.toList = [first] :=
      List.perm_singleton.mp ((List.perm_append_left_iff _).mp hboth)
    refine ⟨draws, hdraws, ?_⟩
    rw [shuffle, hdraw]
    simp [hrest]
  injective draws draws' picks hdraws hdraws' hgives hgives' := by
    obtain ⟨⟨⟨taken, rest⟩, t⟩, hdraw, heq⟩ := Option.map_eq_some_iff.mp hgives
    obtain ⟨⟨⟨taken', rest'⟩, t'⟩, hdraw', heq'⟩ := Option.map_eq_some_iff.mp hgives'
    obtain ⟨hpicks, rfl⟩ := Prod.mk.inj heq
    obtain ⟨hpicks', rfl⟩ := Prod.mk.inj heq'
    obtain ⟨hlength, -⟩ := drawOut_perm_of_empty hdraw
    obtain ⟨hlength', -⟩ := drawOut_perm_of_empty hdraw'
    have hsame : taken.toList.reverse = taken'.toList.reverse := by
      have happend : rest.toList ++ taken.toList.reverse = rest'.toList ++ taken'.toList.reverse :=
        hpicks.trans hpicks'.symm
      refine (List.append_inj' happend ?_).2
      rw [List.length_reverse, List.length_reverse, hlength, hlength']
    obtain rfl : taken = taken' := Array.toList_inj.mp (List.reverse_inj.mp hsame)
    exact Tape.below_injective hdraws.length_eq hdraws'.length_eq
      (drawOut_injective hxs hdraw hdraw')

theorem pairs_places (count : Nat) (hxs : xs.toList.Nodup) :
    Pairs (fun draws => List.Forall₂ (· < ·) draws (List.replicate count xs.size) ∧ draws.Nodup)
      (fun picks => picks.length = count ∧ picks.Nodup ∧ ∀ x ∈ picks, x ∈ xs)
      (fun draws picks => ∃ places, drawPlaces xs.size count #[]
        (Tape.below draws (List.replicate count xs.size)) = some (places, ⟨[]⟩) ∧
          places.toList.filterMap (xs[·]?) = picks) where
  exists_outcome draws := by
    rintro ⟨hdraws, hnodup⟩
    obtain ⟨rfl, hplaces⟩ := forall₂_replicate_iff.mp hdraws
    have hdraw := drawPlaces_taped #[] (fun j hj => ⟨hplaces j hj, Array.not_mem_empty j⟩) hnodup
    have hpicks := nodup_filterMap_places hxs hnodup
    have hmem : ∀ x ∈ draws.filterMap (xs[·]?), x ∈ xs := by
      intro x hx
      obtain ⟨j, -, hj⟩ := List.mem_filterMap.mp hx
      exact Array.mem_of_getElem? hj
    exact ⟨_, ⟨length_filterMap_places hplaces, hpicks, hmem⟩, _, hdraw, by simp⟩
  exists_draws picks := by
    rintro ⟨rfl, hpicks, hmem⟩
    obtain ⟨draws, hplaces, hnodup, rfl⟩ := exists_places_of_nodup hpicks hmem
    rw [length_filterMap_places hplaces]
    have hdraw := drawPlaces_taped #[] (fun j hj => ⟨hplaces j hj, Array.not_mem_empty j⟩) hnodup
    exact ⟨draws, ⟨forall₂_replicate_iff.mpr ⟨rfl, hplaces⟩, hnodup⟩, _, hdraw, by simp⟩
  injective draws draws' picks := by
    rintro ⟨hdraws, hnodup⟩ ⟨hdraws', hnodup'⟩ ⟨places, hdraw, rfl⟩ ⟨places', hdraw', heq⟩
    obtain ⟨rfl, hplaces⟩ := forall₂_replicate_iff.mp hdraws
    obtain ⟨hlength, hplaces'⟩ := forall₂_replicate_iff.mp hdraws'
    have htaped := drawPlaces_taped #[] (fun j hj => ⟨hplaces j hj, Array.not_mem_empty j⟩) hnodup
    have htaped' := drawPlaces_taped #[] (fun j hj => ⟨hplaces' j hj, Array.not_mem_empty j⟩)
      hnodup'
    rw [hlength] at htaped'
    obtain rfl : places = draws.toArray := by simpa using hdraw.symm.trans htaped
    obtain rfl : places' = draws'.toArray := by simpa using hdraw'.symm.trans htaped'
    exact filterMap_places_injective hxs hplaces hplaces' heq.symm

theorem pairs_again (count : Nat) (hxs : xs.toList.Nodup) :
    Pairs (fun draws => List.Forall₂ (· < ·) draws (List.replicate count xs.size))
      (fun picks => picks.length = count ∧ ∀ x ∈ picks, x ∈ xs)
      (fun draws picks => ∃ taken, drawAgain xs count #[]
        (Tape.below draws (List.replicate count xs.size)) = some (taken, ⟨[]⟩) ∧
          taken.toList = picks) where
  exists_outcome draws hdraws := by
    obtain ⟨taken, hdraw⟩ := drawAgain_taped #[] hdraws
    exact ⟨taken.toList, drawAgain_of_empty hdraw, taken, hdraw, rfl⟩
  exists_draws picks := by
    rintro ⟨rfl, hmem⟩
    obtain ⟨draws, hdraws, hdraw⟩ := exists_drawAgain #[] hmem
    exact ⟨draws, hdraws, _, hdraw, by simp⟩
  injective draws draws' picks hdraws hdraws' := by
    rintro ⟨taken, hdraw, rfl⟩ ⟨taken', hdraw', htaken⟩
    obtain rfl : taken' = taken := Array.toList_inj.mp htaken
    exact Tape.below_injective hdraws.length_eq hdraws'.length_eq
      (drawAgain_injective hxs hdraw hdraw')

/-! ## Picks -/

/-- Whether places are drawn, and drawn again if they were drawn before. -/
def drawsPlaces (options : Options) (size : Nat) : Prop :=
  options.repeating = false ∧ options.count size < size ∧ poolLimit (options.count size) < size

instance (options : Options) (size : Nat) : Decidable (drawsPlaces options size) :=
  inferInstanceAs (Decidable (_ ∧ _))

/-- The bounds of the numbers that are drawn in order to pick elements, if no place is drawn
again. -/
def bounds (options : Options) (size : Nat) : List Nat :=
  let count := options.count size
  if options.repeating then List.replicate count size
  else if count < size then
    if size ≤ poolLimit count then countdown size count else List.replicate count size
  else countdown size (size - 1)

/-- Draws that count: each one is below its bound, and no place is drawn again. -/
@[mk_iff]
structure Accepted (options : Options) (size : Nat) (draws : List Nat) : Prop where
  inRange : List.Forall₂ (· < ·) draws (bounds options size)
  fresh : drawsPlaces options size → draws.Nodup

/-- What may be picked: any elements with replacement, so many different ones without, or
all elements in any order if no fewer are asked for. -/
def Outcome (options : Options) (xs : Array α) (picks : List α) : Prop :=
  let count := options.count xs.size
  if options.repeating then picks.length = count ∧ ∀ x ∈ picks, x ∈ xs
  else if count < xs.size then picks.length = count ∧ picks.Nodup ∧ ∀ x ∈ picks, x ∈ xs
  else picks ~ xs.toList

variable {κ : Type} [LE κ] [DecidableLE κ]

/-- Draws, below the bounds that are asked for, and all of them, pick elements. -/
def Drawn (key : α → κ) (options : Options) (xs : Array α) (draws : List Nat)
    (picks : List α) : Prop :=
  select key options xs (Tape.below draws (bounds options xs.size)) = some (picks, ⟨[]⟩)

variable {options : Options} {draws : List Nat}

/-- **Accepted draws and what may be picked go in pairs.** -/
theorem pairs_drawn (key : α → κ) (options : Options) (hxs : xs.toList.Nodup) (hpos : 0 < xs.size)
    (hkeep : options.keepOrder = false) :
    Pairs (Accepted options xs.size) (Outcome options xs) (Drawn key options xs) := by
  have hne : ¬ xs = #[] := Array.size_pos_iff.mp hpos
  cases hrepeating : options.repeating with
  | true =>
    refine (pairs_again (options.count xs.size) hxs).congr ?_ ?_ ?_
    · simp [accepted_iff, bounds, drawsPlaces, hrepeating]
    · simp [Outcome, hrepeating]
    · simp [Drawn, bounds, select, hne, hrepeating, hkeep]
  | false =>
    by_cases hfew : options.count xs.size < xs.size
    · by_cases hpool : poolLimit (options.count xs.size) < xs.size
      · refine (pairs_places (options.count xs.size) hxs).congr ?_ ?_ ?_
        · simp [accepted_iff, bounds, drawsPlaces, hrepeating, hfew, hpool, Nat.not_le.mpr hpool]
        · simp [Outcome, hrepeating, hfew]
        · simp [Drawn, bounds, select, hne, hrepeating, hkeep, hfew, sample,
            Nat.not_le.mpr hpool]
      · refine (pairs_pool (options.count xs.size) hxs).congr ?_ ?_ ?_
        · simp [accepted_iff, bounds, drawsPlaces, hrepeating, hfew, hpool, Nat.not_lt.mp hpool]
        · simp [Outcome, hrepeating, hfew]
        · simp [Drawn, bounds, select, hne, hrepeating, hkeep, hfew, sample,
            Nat.not_lt.mp hpool]
    · refine (pairs_shuffle hxs hpos).congr ?_ ?_ ?_
      · simp [accepted_iff, bounds, drawsPlaces, hrepeating, hfew]
      · simp [Outcome, hrepeating, hfew]
      · simp [Drawn, bounds, select, hne, hrepeating, hkeep, hfew]

/-- **Places that are drawn again do not count.** Where places are drawn, and enough of them
are different, the first draws of each pick what they pick alone. -/
theorem select_redrawn (key : α → κ) (hplaces : drawsPlaces options xs.size)
    (hkeep : options.keepOrder = false) (hdraws : ∀ j ∈ draws, j < xs.size)
    (hcount : options.count xs.size ≤ draws.eraseDups.length) :
    let kept := draws.eraseDups.take (options.count xs.size)
    Accepted options xs.size kept ∧ ∃ picks, Drawn key options xs kept picks ∧
      ∃ rest, select key options xs
        (Tape.below draws (List.replicate draws.length xs.size)) = some (picks, rest) := by
  intro kept
  obtain ⟨hrepeating, hfew, hpool⟩ := hplaces
  have hne : ¬ xs = #[] := Array.size_pos_iff.mp (by omega)
  have hselect : ∀ s : Tape, select key options xs s =
      (drawPlaces xs.size (options.count xs.size) #[] s).map fun (places, s) =>
        (places.toList.filterMap (xs[·]?), s) := by
    intro s
    simp [select, hne, hrepeating, hkeep, hfew, sample, Nat.not_le.mpr hpool,
      Function.comp_def]
  have hall : (draws.filter fun j => !(#[] : Array Nat).contains j) = draws := by simp
  have hcount' : options.count xs.size ≤
      (draws.filter fun j => !(#[] : Array Nat).contains j).eraseDups.length := by
    rw [hall]
    exact hcount
  obtain ⟨rest, hdraw⟩ := drawPlaces_redrawn #[] hdraws hcount'
  rw [hall, Array.empty_append] at hdraw
  obtain ⟨hlength, hnodup, hrange⟩ : kept.length = options.count xs.size ∧ kept.Nodup ∧
      ∀ j ∈ kept, j < xs.size := drawPlaces_of_empty hdraw
  have hbounds : bounds options xs.size = List.replicate (options.count xs.size) xs.size := by
    simp [bounds, hrepeating, hfew, Nat.not_le.mpr hpool]
  have htaped := drawPlaces_taped #[] (fun j hj => ⟨hrange j hj, Array.not_mem_empty j⟩) hnodup
  rw [hlength] at htaped
  refine ⟨⟨?_, fun _ => hnodup⟩, kept.filterMap (xs[·]?), ?_, rest, ?_⟩
  · rw [hbounds]
    exact forall₂_replicate_iff.mpr ⟨hlength, hrange⟩
  · rw [Drawn, hbounds, hselect, htaped]
    simp
  · rw [hselect, hdraw]
    simp [kept]

end Lots.Selection
