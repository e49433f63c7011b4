import Lots.Proofs.Selection.Taping
import Lots.Proofs.Statement.Picks
import Mathlib.Data.Fintype.CardEmbedding
import Mathlib.Data.List.FinRange
import Mathlib.Data.List.OfFn
import Mathlib.Data.List.Permutation
import Mathlib.SetTheory.Cardinal.Finite

/-!
# Lots — selection is unbiased

If each draw is as likely as any other below its bound, then so is each result: the draws and
the results go in pairs (`pairs_drawn`). What is left is to count them.

* **`card_sequences`**, **`card_choices`**, **`card_perm`** — how many rows of elements there
  are: with replacement, without, and of the same elements.
* **`card_draws_of_sublist`** — how many draws pick the same elements, if their order is kept.
* **`select_unbiased`** — the draws that count and the results are one to one.
-/

namespace Lots

open Selection
open scoped List Nat

namespace Selection

/-! ## Counting -/

variable {α : Type} {l : List α} {count : Nat}

/-- The elements at so many places. -/
def placed (l : List α) (f : Fin count → Fin l.length) : List α :=
  List.ofFn fun i => l.get (f i)

theorem length_placed (f : Fin count → Fin l.length) : (placed l f).length = count :=
  List.length_ofFn

theorem mem_of_mem_placed {f : Fin count → Fin l.length} {x : α} (h : x ∈ placed l f) :
    x ∈ l := by
  obtain ⟨i, rfl⟩ := List.mem_ofFn.mp h
  exact List.get_mem l (f i)

theorem placed_injective (hl : l.Nodup) :
    Function.Injective fun f : Fin count → Fin l.length => placed l f := by
  intro f g h
  funext i
  exact List.nodup_iff_injective_get.mp hl (congrFun (List.ofFn_injective h) i)

theorem nodup_placed_iff (hl : l.Nodup) {f : Fin count → Fin l.length} :
    (placed l f).Nodup ↔ Function.Injective f := by
  rw [placed, List.nodup_ofFn]
  exact (List.nodup_iff_injective_get.mp hl).of_comp_iff f

theorem exists_placed {picks : List α} (hmem : ∀ x ∈ picks, x ∈ l) :
    ∃ f : Fin picks.length → Fin l.length, placed l f = picks := by
  have hplace : ∀ i : Fin picks.length, ∃ j, l.get j = picks.get i := fun i =>
    List.mem_iff_get.mp (hmem (picks.get i) (List.get_mem picks i))
  choose f hf using hplace
  refine ⟨f, ?_⟩
  simp only [placed, hf]
  exact List.ofFn_get picks

/-- Elements with replacement. -/
theorem card_sequences (hl : l.Nodup) (count : Nat) :
    Nat.card {picks : List α // picks.length = count ∧ ∀ x ∈ picks, x ∈ l} =
      l.length ^ count := by
  let row (f : Fin count → Fin l.length) :
      {picks : List α // picks.length = count ∧ ∀ x ∈ picks, x ∈ l} :=
    ⟨placed l f, length_placed f, fun _ => mem_of_mem_placed⟩
  have hrow : Function.Bijective row := by
    constructor
    · intro f g h
      exact placed_injective hl (congrArg Subtype.val h)
    · rintro ⟨picks, rfl, hmem⟩
      obtain ⟨f, hf⟩ := exists_placed hmem
      exact ⟨f, Subtype.ext hf⟩
  rw [← Nat.card_eq_of_bijective row hrow]
  simp

/-- Different elements. -/
theorem card_choices (hl : l.Nodup) (count : Nat) :
    Nat.card {picks : List α // picks.length = count ∧ picks.Nodup ∧ ∀ x ∈ picks, x ∈ l} =
      l.length.descFactorial count := by
  let row (f : Fin count ↪ Fin l.length) :
      {picks : List α // picks.length = count ∧ picks.Nodup ∧ ∀ x ∈ picks, x ∈ l} :=
    ⟨placed l f, length_placed f, (nodup_placed_iff hl).mpr f.injective,
      fun _ => mem_of_mem_placed⟩
  have hrow : Function.Bijective row := by
    constructor
    · intro f g h
      exact DFunLike.coe_injective (placed_injective hl (congrArg Subtype.val h))
    · rintro ⟨picks, rfl, hnodup, hmem⟩
      obtain ⟨f, hf⟩ := exists_placed hmem
      rw [← hf] at hnodup
      exact ⟨⟨f, (nodup_placed_iff hl).mp hnodup⟩, Subtype.ext hf⟩
  rw [← Nat.card_eq_of_bijective row hrow, Nat.card_eq_fintype_card, Fintype.card_embedding_eq]
  simp

/-- The same elements in any order. -/
theorem card_perm (hl : l.Nodup) : Nat.card {picks // picks ~ l} = l.length ! := by
  classical
  have hmem : ∀ picks, picks ∈ l.permutations.toFinset ↔ picks ~ l := by
    simp [List.mem_permutations]
  rw [Nat.subtype_card _ hmem, List.toFinset_card_of_nodup (List.nodup_permutations l hl),
    List.length_permutations]

end Selection

/-! ## Results -/

variable {options : Options} {entries : Array Entry}

/-- **Each result is drawn in one way.** -/
structure Unbiased (options : Options) (entries : Array Entry) : Prop where
  /-- The draws that count and what may be picked are one to one. -/
  bijective : ∃ e : {draws // Accepted options entries.size draws} ≃
    {picks // Outcome options entries picks},
      ∀ draws : {draws // Accepted options entries.size draws},
        Drawn Entry.id options entries draws (e draws)
  /-- Places that are drawn again do not count. -/
  redrawn : drawsPlaces options entries.size → ∀ draws : List Nat,
    (∀ j ∈ draws, j < entries.size) → options.count entries.size ≤ draws.eraseDups.length →
      let kept := draws.eraseDups.take (options.count entries.size)
      Accepted options entries.size kept ∧ ∃ picks, Drawn Entry.id options entries kept picks ∧
        ∃ rest, select Entry.id options entries
          (Tape.below draws (List.replicate draws.length entries.size)) = some (picks, rest)
  sequences : options.repeating = true →
    Nat.card {picks // Outcome options entries picks} =
      entries.size ^ options.count entries.size
  choices : options.repeating = false → options.count entries.size < entries.size →
    Nat.card {picks // Outcome options entries picks} =
      entries.size ! / (entries.size - options.count entries.size)!
  orderings : options.repeating = false → entries.size ≤ options.count entries.size →
    Nat.card {picks // Outcome options entries picks} = entries.size !
  /-- Keeping the order, so many entries are picked by all orders in which they are drawn. -/
  subsets : options.repeating = false → options.count entries.size < entries.size →
    ∀ subset : List Entry, subset <+ entries.toList →
      subset.length = options.count entries.size →
        Nat.card {draws // Accepted options entries.size draws ∧
          Drawn Entry.id { options with keepOrder := true } entries draws subset} =
            (options.count entries.size)!

/-- Sorting different entries gives the one row of them whose ids increase. -/
theorem sortByKey_eq_iff (hentries : Numbered entries) {picks subset : List Entry}
    (hsubset : subset <+ entries.toList) : sortByKey Entry.id picks = subset ↔ picks ~ subset := by
  have hsort := sortsTo_sortByKey picks
  constructor
  · rintro rfl
    exact hsort.1.symm
  · intro hperm
    have hincreasing : subset.Pairwise fun x y => x.id ≤ y.id :=
      (List.Pairwise.sublist hsubset hentries).imp Nat.le_of_lt
    refine List.Perm.eq_of_pairwise ?_ hsort.2 hincreasing (hsort.1.trans hperm)
    intro x y hx hy hxy hyx
    have hmem : ∀ e ∈ subset, e ∈ entries := fun e he =>
      Array.mem_toList_iff.mp (hsubset.subset he)
    exact hentries.eq_of_id_eq (hmem x ((hsort.1.trans hperm).subset hx)) (hmem y hy)
      (Nat.le_antisymm hxy hyx)

/-- Draws pick entries that keep their order if they pick them in some order. -/
theorem drawn_keepOrder_iff {draws : List Nat} {picks subset : List Entry}
    (hfew : options.count entries.size < entries.size) (hkeep : options.keepOrder = false)
    (hdrawn : Drawn Entry.id options entries draws picks) :
    Drawn Entry.id { options with keepOrder := true } entries draws subset ↔
      sortByKey Entry.id picks = subset := by
  have hoptions : { options with keepOrder := false } = options := by rw [← hkeep]
  have hbounds : bounds { options with keepOrder := true } entries.size =
      bounds options entries.size := rfl
  rw [Drawn, hbounds, select_keepOrder Entry.id _ (.inr hfew), hoptions, hdrawn]
  simp

/-- So many orders pick the same entries, if their order is kept. -/
theorem card_draws_of_sublist (hentries : Numbered entries) (hkeep : options.keepOrder = false)
    (hrepeating : options.repeating = false)
    (hfew : options.count entries.size < entries.size)
    (e : {draws // Accepted options entries.size draws} ≃
      {picks // Outcome options entries picks})
    (he : ∀ draws : {draws // Accepted options entries.size draws},
      Drawn Entry.id options entries draws (e draws))
    {subset : List Entry} (hsubset : subset <+ entries.toList)
    (hlength : subset.length = options.count entries.size) :
    Nat.card {draws // Accepted options entries.size draws ∧
      Drawn Entry.id { options with keepOrder := true } entries draws subset} =
        (options.count entries.size)! := by
  have hnodup : subset.Nodup := hentries.nodup.sublist hsubset
  have horder : ∀ draws : {draws // Accepted options entries.size draws},
      Drawn Entry.id { options with keepOrder := true } entries draws subset ↔
        (e draws : List Entry) ~ subset := fun draws =>
    (drawn_keepOrder_iff hfew hkeep (he draws)).trans (sortByKey_eq_iff hentries hsubset)
  have houtcome : ∀ {picks}, picks ~ subset → Outcome options entries picks := by
    intro picks hperm
    rw [Outcome, if_neg (by simp [hrepeating]), if_pos hfew]
    refine ⟨hperm.length_eq.trans hlength, hperm.nodup_iff.mpr hnodup, fun x hx => ?_⟩
    exact Array.mem_toList_iff.mp (hsubset.subset (hperm.subset hx))
  calc Nat.card {draws // Accepted options entries.size draws ∧
        Drawn Entry.id { options with keepOrder := true } entries draws subset}
      = Nat.card {draws : {draws // Accepted options entries.size draws} //
          Drawn Entry.id { options with keepOrder := true } entries draws subset} :=
        Nat.card_congr (Equiv.subtypeSubtypeEquivSubtypeInter _ _).symm
    _ = Nat.card {picks : {picks // Outcome options entries picks} //
          (picks : List Entry) ~ subset} := Nat.card_congr (e.subtypeEquiv horder)
    _ = Nat.card {picks // picks ~ subset} :=
        Nat.card_congr (Equiv.subtypeSubtypeEquivSubtype houtcome)
    _ = (options.count entries.size)! := by rw [card_perm hnodup, hlength]

/-- **Selection is unbiased.** -/
theorem select_unbiased (hentries : Numbered entries) (hpos : 0 < entries.size)
    (hkeep : options.keepOrder = false) : Unbiased options entries := by
  have hnodup := hentries.nodup
  have hpairs := pairs_drawn Entry.id options hnodup hpos hkeep
  obtain ⟨e, he⟩ := hpairs.exists_equiv fun draws picks picks' hdrawn hdrawn' => by
    simpa using hdrawn.symm.trans hdrawn'
  refine ⟨⟨e, he⟩, ?_, ?_, ?_, ?_, ?_⟩
  · intro hplaces draws hdraws hcount
    exact select_redrawn Entry.id hplaces hkeep hdraws hcount
  · intro hrepeating
    rw [← Array.length_toList, ← card_sequences hnodup]
    exact Nat.card_congr (Equiv.subtypeEquivRight fun picks => by simp [Outcome, hrepeating])
  · intro hrepeating hfew
    rw [← Nat.descFactorial_eq_div hfew.le, ← Array.length_toList, ← card_choices hnodup]
    exact Nat.card_congr (Equiv.subtypeEquivRight fun picks => by
      simp [Outcome, hrepeating, hfew])
  · intro hrepeating hall
    rw [← Array.length_toList, ← card_perm hnodup]
    exact Nat.card_congr (Equiv.subtypeEquivRight fun picks => by
      simp [Outcome, hrepeating, Nat.not_lt.mpr hall])
  · intro hrepeating hfew subset hsubset hlength
    exact card_draws_of_sublist hentries hkeep hrepeating hfew e he hsubset hlength

/-- Two of three entries can be picked in six ways. -/
theorem select_unbiased_two_of_three :
    let entries : Array Entry := #[⟨4, ['a']⟩, ⟨7, ['b']⟩, ⟨9, ['c']⟩]
    let options : Options := { amount := .count 2 }
    Numbered entries ∧ 0 < entries.size ∧ options.keepOrder = false ∧
      Unbiased options entries ∧ Nat.card {picks // Outcome options entries picks} = 6 := by
  intro entries options
  have hentries : Numbered entries := by
    unfold Numbered
    decide
  have hunbiased : Unbiased options entries := select_unbiased hentries (by decide) rfl
  have hways : entries.size ! / (entries.size - options.count entries.size)! = 6 := by decide
  exact ⟨hentries, by decide, rfl, hunbiased, (hunbiased.choices rfl (by decide)).trans hways⟩

end Lots
