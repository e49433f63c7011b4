import Lots.Proofs.Roll.Chains
import Mathlib.Algebra.BigOperators.Group.Multiset.Basic
import Mathlib.Algebra.Order.BigOperators.Group.Multiset
import Mathlib.Algebra.Ring.Int.Defs
import Mathlib.Order.Bounds.Basic

/-!
# Lots — the dice that a choice keeps

A choice cuts the sorted dice in two and keeps one side. That side is the best one: no other dice,
as many of them, have a greater sum, or a smaller one if the choice is for low dice.

* **`sum_le_sum_of_exchange`** — exchanging some elements for as many greater ones does not make a
  sum smaller.
* **`isLeast_sums`**, **`isGreatest_sums`** — so the front of sorted dice has the least sum of so
  many of them, and the back the greatest.
* **`Choice.Keeps`** — what a choice is to keep of some dice, and `Choice.keeps_mark`, that it
  does.
* **`Roll.choice_keeps_best`** — the outcome of a roll with a choice.
-/

namespace Lots

/-! ## Sums of chosen dice -/

/-- The sums that so many of the dice have. -/
def sums (dice : List Int) (k : Nat) : Set Int :=
  { x | ∃ chosen : Multiset Int, chosen ≤ dice ∧ chosen.card = k ∧ chosen.sum = x }

/-- What only one of two collections has may be exchanged for what only the other has. -/
theorem sum_le_sum_of_exchange {s t : Multiset Int} (hcard : s.card = t.card)
    (h : ∀ x ∈ s - t, ∀ y ∈ t - s, x ≤ y) : s.sum ≤ t.sum := by
  have hs : s - t + s ∩ t = s := Multiset.sub_add_inter s t
  have ht : t - s + s ∩ t = t := by
    rw [Multiset.inter_comm]
    exact Multiset.sub_add_inter t s
  have hmoved : (s - t).card = (t - s).card := by
    have hcards := congrArg Multiset.card hs
    have hcardt := congrArg Multiset.card ht
    rw [Multiset.card_add] at hcards hcardt
    omega
  have hrel : Multiset.Rel (· ≤ ·) (s - t) (t - s) :=
    Multiset.rel_of_forall (fun x y hx hy => h x hx y hy) hmoved
  calc s.sum = (s - t).sum + (s ∩ t).sum := by rw [← Multiset.sum_add, hs]
    _ ≤ (t - s).sum + (s ∩ t).sum :=
      Int.add_le_add_right (Multiset.sum_le_sum_of_rel_le hrel) _
    _ = t.sum := by rw [← Multiset.sum_add, ht]

theorem sums_perm {dice other : List Int} (h : dice.Perm other) (k : Nat) :
    sums dice k = sums other k := by
  rw [sums, Multiset.coe_eq_coe.mpr h, sums]

variable {low high : List Int}

/-- Where dice are cut in two, what is chosen and not on one side is on the other. -/
theorem mem_of_mem_sub_left {chosen : Multiset Int} {x : Int}
    (h : chosen ≤ ((low ++ high : List Int) : Multiset Int)) (hx : x ∈ chosen - low) :
    x ∈ high := by
  rw [← Multiset.coe_add] at h
  exact Multiset.mem_of_le (Multiset.sub_le_iff_le_add'.mpr h) hx

theorem mem_of_mem_sub_right {chosen : Multiset Int} {x : Int}
    (h : chosen ≤ ((low ++ high : List Int) : Multiset Int)) (hx : x ∈ chosen - high) :
    x ∈ low := by
  rw [← Multiset.coe_add] at h
  exact Multiset.mem_of_le (Multiset.sub_le_iff_le_add.mpr h) hx

/-- The lower side of dice that are cut in two has the least sum. -/
theorem isLeast_sums (h : ∀ x ∈ low, ∀ y ∈ high, x ≤ y) :
    IsLeast (sums (low ++ high) low.length) low.sum := by
  refine ⟨⟨low, ?_, Multiset.coe_card low, Multiset.sum_coe low⟩, ?_⟩
  · rw [← Multiset.coe_add]
    exact Multiset.le_add_right _ _
  · rintro _ ⟨chosen, hchosen, hcard, rfl⟩
    rw [← Multiset.sum_coe]
    refine sum_le_sum_of_exchange (by rw [hcard, Multiset.coe_card]) fun x hx y hy => ?_
    exact h x (Multiset.mem_of_le (Multiset.sub_le_self _ _) hx) y (mem_of_mem_sub_left hchosen hy)

/-- The higher side has the greatest. -/
theorem isGreatest_sums (h : ∀ x ∈ low, ∀ y ∈ high, x ≤ y) :
    IsGreatest (sums (low ++ high) high.length) high.sum := by
  refine ⟨⟨high, ?_, Multiset.coe_card high, Multiset.sum_coe high⟩, ?_⟩
  · rw [← Multiset.coe_add]
    exact Multiset.le_add_left _ _
  · rintro _ ⟨chosen, hchosen, hcard, rfl⟩
    rw [← Multiset.sum_coe]
    refine sum_le_sum_of_exchange (by rw [hcard, Multiset.coe_card]) fun x hx y hy => ?_
    exact h x (mem_of_mem_sub_right hchosen hx) y
      (Multiset.mem_of_le (Multiset.sub_le_self _ _) hy)

/-! ## Choices -/

/-- The values of the dice that do not count. -/
def RollOutcome.dropped (o : RollOutcome) : List Int :=
  (o.dice.filter (·.dropped)).map Die.value

namespace Choice

/-- The side of the sorted dice that a choice keeps: the one it names, unless it drops that. -/
def keptSide (choice : Choice) : Side :=
  match choice.action, choice.side with
  | .keep, side => side
  | .drop, .high => .low
  | .drop, .low => .high

/-- How many of so many dice a choice keeps. -/
def keptCount (choice : Choice) (length : Nat) : Nat :=
  match choice.action with
  | .keep => min choice.amount length
  | .drop => length - choice.amount

/-- These are the dice that a choice is to keep, and those that it is to drop: so many are kept,
none of them is on the wrong side of one that is dropped, and no others have a better sum. -/
structure Keeps (choice : Choice) (dice kept dropped : List Int) : Prop where
  perm : (kept ++ dropped).Perm dice
  length_eq : kept.length = choice.keptCount dice.length
  high : choice.keptSide = .high →
    IsGreatest (sums dice kept.length) kept.sum ∧ ∀ x ∈ kept, ∀ y ∈ dropped, y ≤ x
  low : choice.keptSide = .low →
    IsLeast (sums dice kept.length) kept.sum ∧ ∀ x ∈ kept, ∀ y ∈ dropped, x ≤ y

variable (choice : Choice) {dice : List Int}

theorem keptSide_eq : choice.keptSide = if choice.dropsFront then .high else .low := by
  obtain ⟨amount, action, side⟩ := choice
  cases action
  all_goals cases side
  all_goals rfl

theorem keptCount_eq (length : Nat) :
    choice.keptCount length =
      if choice.dropsFront then length - choice.cut length else min (choice.cut length) length := by
  obtain ⟨amount, action, side⟩ := choice
  cases action
  all_goals cases side
  all_goals simp only [keptCount, dropsFront, cut, Bool.false_eq_true, if_true, if_false]
  all_goals omega

/-- Sorted dice are kept behind the cut or before it. -/
theorem keeps_cut (hsorted : dice.Pairwise (· ≤ ·)) :
    let before := dice.take (choice.cut dice.length)
    let behind := dice.drop (choice.cut dice.length)
    (choice.dropsFront = true → choice.Keeps dice behind before) ∧
      (choice.dropsFront = false → choice.Keeps dice before behind) := by
  intro before behind
  have hsplit : before ++ behind = dice := List.take_append_drop _ _
  have hle : ∀ x ∈ before, ∀ y ∈ behind, x ≤ y := by
    rw [← hsplit] at hsorted
    exact (List.pairwise_append.mp hsorted).2.2
  have hside := choice.keptSide_eq
  have hcount := choice.keptCount_eq dice.length
  constructor
  · intro hfront
    rw [hfront, if_pos rfl] at hside hcount
    refine ⟨?_, by rw [List.length_drop, hcount], fun _ => ⟨?_, fun x hx y hy => hle y hy x hx⟩,
      fun hlow => ?_⟩
    · rw [← hsplit]
      exact List.perm_append_comm
    · rw [← hsplit]
      exact isGreatest_sums hle
    · rw [hside] at hlow
      cases hlow
  · intro hfront
    rw [hfront, if_neg Bool.false_ne_true] at hside hcount
    refine ⟨?_, by rw [List.length_take, hcount], fun hhigh => ?_, fun _ => ⟨?_, hle⟩⟩
    · rw [hsplit]
    · rw [hside] at hhigh
      cases hhigh
    · rw [← hsplit]
      exact isLeast_sums hle

/-- Of dice with one mark all count, or none does. -/
theorem kept_marked (values : List Int) (mark : Bool) :
    ((values.map (Die.mk · mark)).filter (!·.dropped)).map Die.value =
      if mark then [] else values := by
  rw [List.filter_map, List.map_map]
  cases mark
  all_goals simp [Function.comp_def]

theorem dropped_marked (values : List Int) (mark : Bool) :
    ((values.map (Die.mk · mark)).filter (·.dropped)).map Die.value =
      if mark then values else [] := by
  rw [List.filter_map, List.map_map]
  cases mark
  all_goals simp [Function.comp_def]

theorem kept_mark (roll : Roll) (sorted : List Int) :
    RollOutcome.kept ⟨roll, choice.mark sorted⟩ =
      if choice.dropsFront then sorted.drop (choice.cut sorted.length)
      else sorted.take (choice.cut sorted.length) := by
  rw [RollOutcome.kept, mark, List.filter_append, List.map_append, kept_marked, kept_marked]
  cases choice.dropsFront
  all_goals simp

theorem dropped_mark (roll : Roll) (sorted : List Int) :
    RollOutcome.dropped ⟨roll, choice.mark sorted⟩ =
      if choice.dropsFront then sorted.take (choice.cut sorted.length)
      else sorted.drop (choice.cut sorted.length) := by
  rw [RollOutcome.dropped, mark, List.filter_append, List.map_append, dropped_marked,
    dropped_marked]
  cases choice.dropsFront
  all_goals simp

/-- **Marking sorted dice keeps the best ones.** -/
theorem keeps_mark (roll : Roll) (hsorted : dice.Pairwise (· ≤ ·)) :
    choice.Keeps dice (RollOutcome.kept ⟨roll, choice.mark dice⟩)
      (RollOutcome.dropped ⟨roll, choice.mark dice⟩) := by
  obtain ⟨hbehind, hbefore⟩ := choice.keeps_cut hsorted
  rw [kept_mark, dropped_mark]
  cases hfront : choice.dropsFront with
  | true => exact hbehind hfront
  | false => exact hbefore hfront

/-- What is to be kept does not depend on the order of the dice. -/
theorem Keeps.of_perm {choice : Choice} {other kept dropped : List Int}
    (h : choice.Keeps dice kept dropped) (hperm : dice.Perm other) :
    choice.Keeps other kept dropped where
  perm := h.perm.trans hperm
  length_eq := by rw [← hperm.length_eq, h.length_eq]
  high hside := by
    rw [← sums_perm hperm]
    exact h.high hside
  low hside := by
    rw [← sums_perm hperm]
    exact h.low hside

theorem Keeps.kept_subset {choice : Choice} {kept dropped : List Int}
    (h : choice.Keeps dice kept dropped) : ∀ z ∈ kept, z ∈ dice :=
  fun _ hz => h.perm.subset (List.mem_append_left dropped hz)

end Choice

/-! ## Rolls -/

namespace Roll

variable {roll : Roll} {choice : Choice} {dice : List Int}

/-- The same roll with another choice. -/
def choosing (roll : Roll) (choice : Choice) : Roll :=
  { roll with choice := some choice }

theorem arrange_choosing (roll : Roll) (choice : Choice) (dice : List Int) :
    (roll.choosing choice).arrange dice = choice.mark (dice.mergeSort (· ≤ ·)) :=
  arrange_of_choice rfl dice

/-- A choice does not see in which order the dice fell. -/
theorem arrange_perm (hchoice : roll.choice = some choice) {other : List Int}
    (h : other.Perm dice) : roll.arrange other = roll.arrange dice := by
  have hperm : (other.mergeSort (· ≤ ·)).Perm (dice.mergeSort (· ≤ ·)) :=
    ((List.mergeSort_perm other _).trans h).trans (List.mergeSort_perm dice _).symm
  have hsort : other.mergeSort (· ≤ ·) = dice.mergeSort (· ≤ ·) :=
    List.Perm.eq_of_pairwise (fun _ _ _ _ => Int.le_antisymm) (pairwise_sorted other)
      (pairwise_sorted dice) hperm
  rw [arrange_of_choice hchoice, arrange_of_choice hchoice, hsort]

theorem keeps_arrange (hchoice : roll.choice = some choice) (dice : List Int) :
    choice.Keeps dice (RollOutcome.kept ⟨roll, roll.arrange dice⟩)
      (RollOutcome.dropped ⟨roll, roll.arrange dice⟩) := by
  rw [arrange_of_choice hchoice]
  exact (choice.keeps_mark roll (pairwise_sorted dice)).of_perm (List.mergeSort_perm dice _)

/-- Dice on the sides of a roll have a sum between their number and that many times the
maximum. -/
theorem OnSides.sum_bounds {kept : List Int} (h : roll.OnSides kept) :
    kept.length ≤ kept.sum ∧ kept.sum ≤ kept.length * roll.sides := by
  constructor
  · have hle := List.card_nsmul_le_sum kept 1 fun z hz => (h z hz).1
    simpa using hle
  · have hle := List.sum_le_card_nsmul kept roll.sides fun z hz => (h z hz).2
    simpa using hle

/-- Keeping the highest dice is dropping the others from the low side. -/
theorem arrange_keep_high (roll : Roll) (n : Nat) (dice : List Int) :
    (roll.choosing ⟨n, .keep, .high⟩).arrange dice =
      (roll.choosing ⟨dice.length - n, .drop, .low⟩).arrange dice := by
  rw [arrange_choosing, arrange_choosing]
  simp [Choice.mark, Choice.cut, Choice.dropsFront]

theorem arrange_keep_low (roll : Roll) {n : Nat} (hn : n ≤ dice.length) :
    (roll.choosing ⟨n, .keep, .low⟩).arrange dice =
      (roll.choosing ⟨dice.length - n, .drop, .high⟩).arrange dice := by
  have hcut : dice.length - (dice.length - n) = n := by omega
  rw [arrange_choosing, arrange_choosing]
  simp [Choice.mark, Choice.cut, Choice.dropsFront, hcut]

/-- **A choice keeps the best dice.** Whatever dice fall, those that count have the best sum of as
many of them; the total is this sum and the modifier, in whatever order they fell, and within the
bounds of so many dice. To keep some dice is to drop the others from the other side. -/
theorem choice_keeps_best (hchoice : roll.choice = some choice) (dice : List Int) :
    let o : RollOutcome := ⟨roll, roll.arrange dice⟩
    choice.Keeps dice o.kept o.dropped ∧
      o.total = o.kept.sum + roll.modifier ∧
      (∀ other : List Int, other.Perm dice →
        RollOutcome.total ⟨roll, roll.arrange other⟩ = o.total) ∧
      (roll.OnSides dice → o.kept.length + roll.modifier ≤ o.total ∧
        o.total ≤ o.kept.length * roll.sides + roll.modifier) ∧
      ∀ n ≤ dice.length,
        (roll.choosing ⟨n, .keep, .high⟩).arrange dice =
          (roll.choosing ⟨dice.length - n, .drop, .low⟩).arrange dice ∧
        (roll.choosing ⟨n, .keep, .low⟩).arrange dice =
          (roll.choosing ⟨dice.length - n, .drop, .high⟩).arrange dice := by
  intro o
  have hkeeps : choice.Keeps dice o.kept o.dropped := keeps_arrange hchoice dice
  have htotal : o.total = o.kept.sum + roll.modifier := rfl
  refine ⟨hkeeps, htotal, ?_, ?_, ?_⟩
  · intro other hother
    rw [arrange_perm hchoice hother]
  · intro hdice
    have hkept : roll.OnSides o.kept := fun z hz => hdice z (hkeeps.kept_subset z hz)
    obtain ⟨hlower, hupper⟩ := hkept.sum_bounds
    rw [htotal]
    exact ⟨Int.add_le_add_right hlower _, Int.add_le_add_right hupper _⟩
  · intro n hn
    exact ⟨arrange_keep_high roll n dice, arrange_keep_low roll hn⟩

/-- Of four dice with a tie the three highest are kept: no three of them have a greater sum. -/
theorem choice_keeps_best_of_tied :
    let roll : Roll := { amount := 4, choice := some ⟨3, .keep, .high⟩, modifier := -1 }
    let o : RollOutcome := ⟨roll, roll.arrange [3, 6, 1, 3]⟩
    roll.choice = some ⟨3, .keep, .high⟩ ∧ o.kept.length = 3 ∧
      IsGreatest (sums [3, 6, 1, 3] 3) (o.total + 1) := by
  intro roll o
  have hchoice : roll.choice = some ⟨3, .keep, .high⟩ := rfl
  obtain ⟨hkeeps, htotal, -⟩ := choice_keeps_best hchoice [3, 6, 1, 3]
  have hlength : o.kept.length = 3 := hkeeps.length_eq
  obtain ⟨hgreatest, -⟩ := hkeeps.high rfl
  have hsum : o.kept.sum = o.total + 1 := by
    rw [htotal]
    exact (Int.sub_add_cancel _ 1).symm
  refine ⟨hchoice, hlength, ?_⟩
  rw [← hsum, ← hlength]
  exact hgreatest

end Roll

end Lots
