import Lots.Proofs.Selection.Asking
import Lots.Statement
import Mathlib.Data.List.Sort

/-!
# Lots — the picks of a statement

Entries are numbered in the order in which they came. So to keep their order is to sort them
by their ids, and entries that are all picked are in their order already.

* **`Picked`** — what may be picked: so many entries as the options ask for, from different
  places unless entries are picked again, and in order if the order is kept.
* **`picked_of_select`** — whatever the draws, such entries are picked.
* **`keepOrder_sorts`** — keeping the order picks the same entries, sorted. It leaves the same
  source, or draws nothing where the entries have only to be listed.
-/

namespace Lots

open Selection
open scoped List

/-! ## Order -/

/-- Entries whose ids increase. -/
def Numbered (entries : Array Entry) : Prop :=
  entries.toList.Pairwise fun x y => x.id < y.id

/-- The same entries in the order of their ids. -/
def SortsTo (picks sorted : List Entry) : Prop :=
  sorted ~ picks ∧ sorted.Pairwise fun x y => x.id ≤ y.id

namespace Numbered

variable {entries : Array Entry}

theorem nodup (h : Numbered entries) : entries.toList.Nodup :=
  List.Pairwise.imp (fun hlt heq => by simp [heq] at hlt) h

/-- Each id stands for one entry. -/
theorem eq_of_id_eq (h : Numbered entries) {x y : Entry} (hx : x ∈ entries) (hy : y ∈ entries)
    (hid : x.id = y.id) : x = y := by
  obtain ⟨i, hi, rfl⟩ := List.getElem_of_mem (Array.mem_toList_iff.mpr hx)
  obtain ⟨j, hj, rfl⟩ := List.getElem_of_mem (Array.mem_toList_iff.mpr hy)
  -- of two places the later one has the greater id
  have hlt := List.pairwise_iff_getElem.mp h
  rcases Nat.lt_trichotomy i j with hij | rfl | hji
  · have hids := hlt i j hi hj hij
    omega
  · rfl
  · have hids := hlt j i hj hi hji
    omega

end Numbered

theorem pairwise_sortByKey (picks : List Entry) :
    (sortByKey Entry.id picks).Pairwise fun x y => x.id ≤ y.id := by
  have hsorted : (sortByKey Entry.id picks).Pairwise fun x y => decide (x.id ≤ y.id) = true := by
    apply List.pairwise_mergeSort
    · intro x y z hxy hyz
      simp only [decide_eq_true_eq] at *
      omega
    · intro x y
      simp only [Bool.or_eq_true, decide_eq_true_eq]
      omega
  exact hsorted.imp of_decide_eq_true

theorem sortsTo_sortByKey (picks : List Entry) : SortsTo picks (sortByKey Entry.id picks) :=
  ⟨List.mergeSort_perm picks _, pairwise_sortByKey picks⟩

/-! ## Picks -/

/-- What may be picked out of entries. -/
structure Picked (options : Options) (entries : Array Entry) (picks : List Entry) : Prop where
  length : picks.length = pickCount options entries.size
  mem : ∀ e ∈ picks, e ∈ entries
  /-- Without replacement each pick stands at a place of its own. -/
  places : options.repeating = false →
    ∃ places : List (Fin entries.size), places.Nodup ∧ picks = places.map (entries[·])
  perm : options.repeating = false → entries.size ≤ options.count entries.size →
    picks ~ entries.toList
  ordered : options.keepOrder = true → picks.Pairwise fun x y => x.id ≤ y.id
  increasing : options.keepOrder = true → options.repeating = false →
    picks.Pairwise (fun x y => x.id < y.id) ∧ picks <+ entries.toList

variable {σ : Type} [Source σ] {options : Options} {entries : Array Entry}
  {picks : List Entry} {s s' : σ}

theorem ordered_of_select (hentries : Numbered entries) (hkeep : options.keepOrder = true)
    (h : select Entry.id options entries s = some (picks, s')) :
    picks.Pairwise fun x y => x.id ≤ y.id := by
  rcases select_cases Entry.id options entries s with ⟨-, heq⟩ | ⟨-, -, heq⟩ | ⟨-, -, heq⟩ |
    ⟨-, -, -, heq⟩ <;> rw [heq] at h
  · cases h
    exact .nil
  · obtain ⟨drawn, -, hpicks⟩ := Option.map_eq_some_iff.mp h
    obtain ⟨rfl, -⟩ := Prod.mk.inj hpicks
    rw [arrange, if_pos hkeep]
    exact pairwise_sortByKey _
  · obtain ⟨drawn, -, hpicks⟩ := Option.map_eq_some_iff.mp h
    obtain ⟨rfl, -⟩ := Prod.mk.inj hpicks
    rw [arrange, if_pos hkeep]
    exact pairwise_sortByKey _
  · -- all entries are in their order already
    rw [if_pos hkeep] at h
    cases h
    exact List.Pairwise.imp Nat.le_of_lt hentries

/-- **What is picked.** Whatever is drawn, the picks are such as the options ask for. -/
theorem picked_of_select (hentries : Numbered entries)
    (h : select Entry.id options entries s = some (picks, s')) :
    Picked options entries picks := by
  have hmem : ∀ e ∈ picks, e ∈ entries := mem_of_mem_select h
  have hlength := length_select h
  have hordered := fun hkeep => ordered_of_select hentries hkeep h
  have hsubperm : options.repeating = false → picks <+~ entries.toList := by
    intro hrepeating
    exact List.subperm_of_subset (nodup_select h hrepeating hentries.nodup)
      fun e he => Array.mem_toList_iff.mpr (hmem e he)
  refine ⟨hlength, hmem, exists_places h, ?_, hordered, ?_⟩
  · intro hrepeating hall
    -- as many different entries as there are
    apply (hsubperm hrepeating).perm_of_length_le
    rw [hlength, pickCount, hrepeating, Array.length_toList]
    split
    · omega
    · simp [hall]
  · intro hkeep hrepeating
    have hnodup := nodup_select h hrepeating hentries.nodup
    have hincreasing : picks.Pairwise fun x y => x.id < y.id := by
      refine (List.pairwise_iff_getElem.mpr fun i j hi hj hij => ?_)
      have hle := List.pairwise_iff_getElem.mp (hordered hkeep) i j hi hj hij
      have hne : picks[i].id ≠ picks[j].id := by
        intro hid
        have heq := hentries.eq_of_id_eq (hmem _ (List.getElem_mem hi))
          (hmem _ (List.getElem_mem hj)) hid
        have hplace := hnodup.getElem_inj_iff.mp heq
        omega
      omega
    have : Std.Antisymm fun x y : Entry => x.id < y.id := ⟨fun x y hxy hyx => by omega⟩
    exact ⟨hincreasing, List.sublist_of_subperm_of_pairwise (hsubperm hrepeating) hincreasing
      hentries⟩

/-! ## Keeping the order -/

/-- Where all entries are picked, keeping the order lists them. -/
theorem select_all_ordered (hrepeating : options.repeating = false)
    (hall : entries.size ≤ options.count entries.size) :
    select Entry.id { options with keepOrder := true } entries s = some (entries.toList, s) := by
  rcases select_cases Entry.id { options with keepOrder := true } entries s with
    ⟨rfl, heq⟩ | ⟨-, hnot, -⟩ | ⟨-, hfew, -⟩ | ⟨-, -, -, heq⟩
  · exact heq
  · simp [hrepeating] at hnot
  · exact absurd hfew (Nat.not_lt.mpr hall)
  · exact heq

/-- **Keeping the order never changes what is picked.** In any order and with the order kept
there are picks iff each request that is then made is answered in its range. If entries are
picked in any order, then keeping the order picks them too, sorted by their ids. Both leave one
source, unless all entries are picked: then keeping the order draws nothing and lists them, even
where a draw of them in any order is not answered. -/
theorem keepOrder_sorts (hentries : Numbered entries) (options : Options) (s : σ) :
    let unordered := select Entry.id { options with keepOrder := false } entries s
    let ordered := select Entry.id { options with keepOrder := true } entries s
    let draws := options.repeating = true ∨ options.count entries.size < entries.size
    (∀ s', (∃ picks, unordered = some (picks, s')) ↔
      Source.Answers (nextBound { options with keepOrder := false } entries.size) [] s s') ∧
    (∀ s', (∃ picks, ordered = some (picks, s')) ↔
      Source.Answers (nextBound { options with keepOrder := true } entries.size) [] s s') ∧
    match unordered with
    | some (picks, s') => ∃ sorted, SortsTo picks sorted ∧
        ((draws ∧ ordered = some (sorted, s')) ∨ (¬ draws ∧ ordered = some (sorted, s)))
    | none => (draws ∧ ordered = none) ∨ (¬ draws ∧ ordered = some (entries.toList, s)) := by
  intro unordered ordered draws
  have hsort : draws → ordered = unordered.map fun (picks, s) =>
      (sortByKey Entry.id picks, s) := select_keepOrder Entry.id s
  have hlist : ¬ draws → ordered = some (entries.toList, s) := by
    intro hnot
    obtain ⟨hrepeating, hall⟩ := not_or.mp hnot
    exact select_all_ordered (by simpa using hrepeating) (by omega)
  refine ⟨select_iff_answers Entry.id _ entries s, select_iff_answers Entry.id _ entries s, ?_⟩
  cases hunordered : unordered with
  | none =>
    by_cases hdraws : draws
    · exact .inl ⟨hdraws, by rw [hsort hdraws, hunordered]; rfl⟩
    · exact .inr ⟨hdraws, hlist hdraws⟩
  | some picked =>
    obtain ⟨picks, s'⟩ := picked
    by_cases hdraws : draws
    · refine ⟨sortByKey Entry.id picks, sortsTo_sortByKey picks, .inl ⟨hdraws, ?_⟩⟩
      rw [hsort hdraws, hunordered]
      rfl
    · obtain ⟨hrepeating, hall⟩ := not_or.mp hdraws
      have hperm := (picked_of_select hentries hunordered).perm (by simpa using hrepeating)
        (Nat.not_lt.mp hall)
      have hsorts : SortsTo picks entries.toList :=
        ⟨hperm.symm, List.Pairwise.imp Nat.le_of_lt hentries⟩
      exact ⟨entries.toList, hsorts, .inr ⟨hdraws, hlist hdraws⟩⟩

/-- Two of three entries, the last of them drawn first. Both requests are answered. -/
theorem keepOrder_sorts_two_of_three :
    let entries : Array Entry := #[⟨4, ['a']⟩, ⟨7, ['b']⟩, ⟨9, ['c']⟩]
    let options : Options := { amount := .count 2 }
    let tape := Tape.below [2, 0] [3, 2]
    Numbered entries ∧
      select Entry.id { options with keepOrder := false } entries tape =
        some ([⟨9, ['c']⟩, ⟨4, ['a']⟩], ⟨[]⟩) ∧
      Source.Answers (nextBound { options with keepOrder := false } entries.size) [] tape ⟨[]⟩ ∧
      ∃ sorted, SortsTo [⟨9, ['c']⟩, ⟨4, ['a']⟩] sorted ∧
        select Entry.id { options with keepOrder := true } entries tape =
          some (sorted, ⟨[]⟩) ∧
        Source.Answers (nextBound { options with keepOrder := true } entries.size) [] tape ⟨[]⟩ := by
  intro entries options tape
  have hentries : Numbered entries := by
    unfold Numbered
    decide
  have hunordered : select Entry.id { options with keepOrder := false } entries tape =
      some ([⟨9, ['c']⟩, ⟨4, ['a']⟩], ⟨[]⟩) := by decide
  obtain ⟨hanyOrder, hinOrder, hsorts⟩ := keepOrder_sorts hentries options tape
  have hanswers := (hanyOrder ⟨[]⟩).mp ⟨_, hunordered⟩
  simp only [hunordered] at hsorts
  obtain ⟨sorted, hsorted, ⟨-, hordered⟩ | ⟨hnot, -⟩⟩ := hsorts
  · have hanswers' := (hinOrder ⟨[]⟩).mp ⟨sorted, hordered⟩
    exact ⟨hentries, hunordered, hanswers, sorted, hsorted, hordered, hanswers'⟩
  · exact absurd (.inr (by decide)) hnot

end Lots
