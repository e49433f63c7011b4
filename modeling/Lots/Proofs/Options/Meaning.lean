import Lots.Proofs.Numeral.Refusal
import Mathlib.Data.List.Sort

/-!
# Lots — what an options clause means

The outcome that is due to an options clause, said without the code that judges it: which clauses
are refused, for what, and in which order of precedence; and what the others set.

* **`Notation.Gives`** — the outcome of a clause, from the amount and the flags that are written:
  an amount that is too large, flags that occur twice, flags that contradict each other, or the
  options that it sets (`Notation.Sets`).
* **`Notation.gives_value`**, **`Notation.value_of_gives`** — an amount that is read is judged so,
  and the outcome is the only one.
* **`Notation.value_congr`** — the order of the flags plays no part in it.
-/

namespace Lots.Options

open Numeral (digitLimit)

/-! ## Flags -/

namespace Flag

theorem mem_all (flag : Flag) : flag ∈ all := by
  cases flag <;> decide

theorem toChar_injective : Function.Injective toChar := by
  intro flag other h
  have hother := ofChar?_toChar other
  rw [← h, ofChar?_toChar] at hother
  exact Option.some.inj hother

/-- Flags in the order of their letters, each of them once. -/
def Sorted (flags : List Flag) : Prop :=
  flags.Pairwise fun flag other => flag.toChar < other.toChar

theorem Sorted.eq_of_mem_iff {flags others : List Flag} (h : Sorted flags) (h' : Sorted others)
    (hmem : ∀ flag, flag ∈ flags ↔ flag ∈ others) : flags = others := by
  have hletters : flags.map toChar = others.map toChar := by
    apply List.Pairwise.eq_of_mem_iff (List.pairwise_map.mpr h) (List.pairwise_map.mpr h')
    intro c
    simp only [List.mem_map, hmem]
  exact List.map_injective_iff.mpr toChar_injective hletters

end Flag

/-! ## Clauses -/

namespace Notation

/-- The amount that is meant: one entry if none is written. -/
def amountMeant : Option AmountText → Amount
  | none => .count 1
  | some .all => .all
  | some (.digits digits) => .count (Numeral.value digits)

/-- The digits that are written as amount, if there are any, are not too many. -/
def Short (written : Notation) : Prop :=
  ∀ digits, written.amount = some (.digits digits) → digits.length ≤ digitLimit

/-- These digits are written as amount, and their value is above the largest amount. -/
def Excessive (written : Notation) (digits : List Char) : Prop :=
  written.amount = some (.digits digits) ∧ maxAmount < Numeral.value digits

/-- The options have the amount that is written, and what the flags that occur stand for. -/
structure Sets (written : Notation) (options : Options) : Prop where
  amount : options.amount = amountMeant written.amount
  repeating : options.repeating = true ↔ .repeating ∈ written.flags
  keepOrder : options.keepOrder = true ↔ .keepOrder ∈ written.flags
  evaluated : options.evaluate = some true ↔ .evaluate ∈ written.flags
  literal : options.evaluate = some false ↔ .literal ∈ written.flags
  push : options.push = true ↔ .push ∈ written.flags

/-- The outcome that is due to a clause. The amount is judged before the flags, and flags that
occur twice before flags that contradict each other. -/
inductive Gives (written : Notation) : Except Error Options → Prop where
  | tooLarge {digits : List Char} (hexcess : written.Excessive digits) :
      Gives written (.error (.tooLarge digits))
  | duplicate {flags : List Flag} (hfits : ∀ digits, ¬ written.Excessive digits)
      (hne : flags ≠ []) (hsorted : Flag.Sorted flags)
      (hmem : ∀ flag, flag ∈ flags ↔ 1 < written.flags.count flag) :
      Gives written (.error (.duplicate flags))
  | incompatible (hfits : ∀ digits, ¬ written.Excessive digits) (hnodup : written.flags.Nodup)
      (hboth : .evaluate ∈ written.flags ∧ .literal ∈ written.flags) :
      Gives written (.error .incompatible)
  | options {options : Options} (hfits : ∀ digits, ¬ written.Excessive digits)
      (hnodup : written.flags.Nodup)
      (hnotBoth : ¬ (.evaluate ∈ written.flags ∧ .literal ∈ written.flags))
      (hsets : written.Sets options) : Gives written (.ok options)

/-! ### The code gives it -/

theorem Sets.unique {written : Notation} {options options' : Options} (h : written.Sets options)
    (h' : written.Sets options') : options = options' := by
  have hevaluate : options.evaluate = options'.evaluate := by
    have htrue := h.evaluated.trans h'.evaluated.symm
    have hfalse := h.literal.trans h'.literal.symm
    rcases heval : options.evaluate with _ | _ | _ <;>
      rcases heval' : options'.evaluate with _ | _ | _ <;> simp_all
  have hamount : options.amount = options'.amount := h.amount.trans h'.amount.symm
  have hrepeating := Bool.eq_iff_iff.mpr (h.repeating.trans h'.repeating.symm)
  have hkeepOrder := Bool.eq_iff_iff.mpr (h.keepOrder.trans h'.keepOrder.symm)
  have hpush := Bool.eq_iff_iff.mpr (h.push.trans h'.push.symm)
  cases options
  cases options'
  simp_all

/-- An amount that is read is refused if it is excessive, and means its value otherwise. -/
theorem amountValue_cases {written : Notation} (hshort : written.Short) :
    (∃ digits, written.Excessive digits ∧
      amountValue written.amount = .error (.tooLarge digits)) ∨
    (∀ digits, ¬ written.Excessive digits) ∧
      amountValue written.amount = .ok (amountMeant written.amount) := by
  cases hamount : written.amount with
  | none => exact .inr ⟨fun digits h => by simp [Excessive, hamount] at h, rfl⟩
  | some amount =>
    cases amount with
    | all => exact .inr ⟨fun digits h => by simp [Excessive, hamount] at h, rfl⟩
    | digits digits =>
      have hread := Numeral.read_of_length_le (hshort digits hamount)
      simp only [amountValue, hread, amountMeant]
      split
      · next hle =>
        refine .inr ⟨?_, rfl⟩
        intro digits' hexcess
        have hsame := hexcess.1
        rw [hamount] at hsame
        cases hsame
        exact absurd hle (Nat.not_le.mpr hexcess.2)
      · next hgt => exact .inl ⟨digits, ⟨hamount, Nat.not_le.mp hgt⟩, rfl⟩

theorem mem_duplicates {flags : List Flag} {flag : Flag} :
    flag ∈ duplicates flags ↔ 1 < flags.count flag := by
  simp [duplicates, Flag.mem_all]

theorem sorted_duplicates (flags : List Flag) : Flag.Sorted (duplicates flags) := by
  have hall : Flag.Sorted Flag.all := by
    unfold Flag.Sorted
    decide
  exact List.Pairwise.filter _ hall

theorem duplicates_eq_nil_iff {flags : List Flag} : duplicates flags = [] ↔ flags.Nodup := by
  simp only [List.eq_nil_iff_forall_not_mem, mem_duplicates, List.nodup_iff_count_le_one,
    Nat.not_lt]

/-- The options with an amount and what flags stand for. -/
def optionsOf (amount : Amount) (flags : List Flag) : Options where
  amount := amount
  repeating := flags.contains .repeating
  keepOrder := flags.contains .keepOrder
  evaluate := evaluation flags
  push := flags.contains .push

theorem sets_optionsOf {written : Notation}
    (hnotBoth : ¬ (.evaluate ∈ written.flags ∧ .literal ∈ written.flags)) :
    written.Sets (optionsOf (amountMeant written.amount) written.flags) where
  amount := rfl
  repeating := List.contains_iff_mem
  keepOrder := List.contains_iff_mem
  evaluated := by
    simp only [optionsOf, evaluation, List.contains_iff_mem]
    split
    · next h => simp [h]
    · split <;> simp_all
  literal := by
    simp only [optionsOf, evaluation, List.contains_iff_mem]
    split
    · next h => simpa [h] using hnotBoth
    · split <;> simp_all
  push := List.contains_iff_mem

/-- With an amount in its range, it is the flags that decide. -/
theorem value_of_fits {written : Notation} (hshort : written.Short)
    (hfits : ∀ digits, ¬ written.Excessive digits) :
    written.value =
      if duplicates written.flags ≠ [] then .error (.duplicate (duplicates written.flags))
      else if .evaluate ∈ written.flags ∧ .literal ∈ written.flags then .error .incompatible
      else .ok (optionsOf (amountMeant written.amount) written.flags) := by
  rcases amountValue_cases hshort with ⟨digits, hexcess, -⟩ | ⟨-, hamount⟩
  · exact absurd hexcess (hfits digits)
  · simp only [value, hamount, bind, Except.bind, Bool.and_eq_true, List.contains_iff_mem]
    split
    · rfl
    · split <;> rfl

theorem value_of_excessive {written : Notation} {digits : List Char} (hshort : written.Short)
    (hexcess : written.Excessive digits) : written.value = .error (.tooLarge digits) := by
  rcases amountValue_cases hshort with ⟨digits', hexcess', hamount⟩ | ⟨hfits, -⟩
  · have hsame := hexcess'.1
    rw [hexcess.1] at hsame
    cases hsame
    rw [value, hamount]
    rfl
  · exact absurd hexcess (hfits digits)

/-- Reading a clause gives the outcome that is due, if its amount is read. -/
theorem gives_value {written : Notation} (hshort : written.Short) :
    written.Gives written.value := by
  by_cases hlarge : ∃ digits, written.Excessive digits
  · obtain ⟨digits, hexcess⟩ := hlarge
    exact value_of_excessive hshort hexcess ▸ .tooLarge hexcess
  · have hfits := not_exists.mp hlarge
    rw [value_of_fits hshort hfits]
    split
    · next hne => exact .duplicate hfits hne (sorted_duplicates _) fun _ => mem_duplicates
    · next hnone =>
      have hnodup := duplicates_eq_nil_iff.mp (Decidable.not_not.mp hnone)
      split
      · next hboth => exact .incompatible hfits hnodup hboth
      · next hnotBoth => exact .options hfits hnodup hnotBoth (sets_optionsOf hnotBoth)

/-- No other outcome is due. -/
theorem value_of_gives {written : Notation} {result : Except Error Options}
    (hshort : written.Short) (h : written.Gives result) : written.value = result := by
  cases h with
  | tooLarge hexcess => exact value_of_excessive hshort hexcess
  | @duplicate flags hfits hne hsorted hmem =>
    have hflags : duplicates written.flags = flags := by
      apply (sorted_duplicates _).eq_of_mem_iff hsorted
      intro flag
      rw [mem_duplicates, hmem]
    rw [value_of_fits hshort hfits, hflags, if_pos hne]
  | incompatible hfits hnodup hboth =>
    rw [value_of_fits hshort hfits, duplicates_eq_nil_iff.mpr hnodup, if_neg (by simp),
      if_pos hboth]
  | options hfits hnodup hnotBoth hsets =>
    rw [value_of_fits hshort hfits, duplicates_eq_nil_iff.mpr hnodup, if_neg (by simp),
      if_neg hnotBoth, (sets_optionsOf hnotBoth).unique hsets]

/-- Only the amount and how often each flag occurs play a part in the outcome. -/
theorem value_congr {written other : Notation} (hamount : written.amount = other.amount)
    (hflags : written.flags.Perm other.flags) : written.value = other.value := by
  have hcontains : ∀ flag, written.flags.contains flag = other.flags.contains flag := by
    intro flag
    rw [Bool.eq_iff_iff, List.contains_iff_mem, List.contains_iff_mem]
    exact hflags.mem_iff
  have hduplicates : duplicates written.flags = duplicates other.flags := by
    simp only [duplicates, hflags.count_eq]
  have hevaluation : evaluation written.flags = evaluation other.flags := by
    simp only [evaluation, hcontains]
  simp only [value, hamount, hcontains, hduplicates, hevaluation]

end Notation

end Lots.Options
