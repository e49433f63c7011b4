import Lots.Proofs.Interval.Segmentation

/-!
# Lots — printed notation reads back

The canonical notation of a roll, and of an interval of integers, writes what it was made of, so
it reads back as it. Printing leaves out what would be read without it: a single die, a single
chosen die, the side that a choice is from by itself, and a modifier of zero. An interval is
printed with the bounds that its half-open range came from.

* **`Roll.Proper`** — the rolls that dice notation can mean: `Roll.proper_of_parse?`.
* **`Roll.written`**, **`Roll.writes_text`** — the notation of a roll, written by its text.
* **`Interval.Spans`** — an interval of the integers between two bounds:
  `Interval.exists_spans_of_parse?`.
* **`Interval.Spans.written`**, **`Interval.Spans.writes_text`** — its notation, in brackets,
  whatever form it was read from.
* **`printed_reads_back`** — both read back, so printing is a normal form of what is read.
-/

namespace Lots

/-! ## Numbers -/

namespace Numeral

def signOf (z : Int) : Sign :=
  if z < 0 then .minus else .plus

theorem apply_signOf (z : Int) : (signOf z).apply z.natAbs = z := by
  unfold signOf
  split
  all_goals
    simp only [Sign.apply]
    omega

theorem signedText_eq (z : Int) : signedText z = (signOf z).toChar :: text z.natAbs := by
  unfold signedText signOf
  split <;> rfl

theorem readSigned_text {z : Int} (h : z.natAbs < 10 ^ 10) :
    readSigned (signOf z) (text z.natAbs) = .ok z := by
  rw [readSigned, read_text_of_lt h, Except.map, apply_signOf]

end Numeral

/-! ## Rolls -/

namespace Roll

open Numeral (Sign)

/-- A roll whose numbers are in their ranges. -/
structure Proper (roll : Roll) : Prop where
  amount : 1 ≤ roll.amount ∧ roll.amount ≤ maxCount
  sides : 1 ≤ roll.sides ∧ roll.sides ≤ maxCount
  choice : ∀ choice ∈ roll.choice, 1 ≤ choice.amount ∧ choice.amount ≤ maxCount
  modifier : minModifier ≤ roll.modifier ∧ roll.modifier ≤ maxModifier

/-! ### What is printed -/

/-- A modifier as notation; none for zero. -/
def modifiersOf (modifier : Int) : List (Sign × List Char) :=
  if modifier = 0 then [] else [(Numeral.signOf modifier, Numeral.text modifier.natAbs)]

/-- A choice as notation. -/
def choiceOf (choice : Choice) : (Action × Side) × List Char :=
  ((choice.action, choice.side), countText choice.amount)

/-- The notation that a roll is printed in. -/
def written (roll : Roll) : Notation where
  amount := countText roll.amount
  sides := some (Numeral.text roll.sides)
  exploding := roll.exploding
  choice := roll.choice.map choiceOf
  modifiers := modifiersOf roll.modifier

theorem digits_countText (n : Nat) : Text.Digits (countText n) := by
  unfold countText
  split
  · exact Numeral.digits_text n
  · exact Text.digits_nil

theorem kindText_symbol (choice : Choice) :
    Notation.KindText (choice.action, choice.side) choice.symbol := by
  obtain ⟨amount, action, side⟩ := choice
  cases action <;> cases side
  · exact .keep
  · exact .keepLow
  · exact .dropHigh
  · exact .drop

theorem choiceText_choiceOf (choice : Option Choice) :
    Notation.ChoiceText (choice.map choiceOf) (choiceText choice) := by
  cases choice with
  | none => exact .none
  | some choice => exact .some (kindText_symbol choice) (digits_countText choice.amount)

theorem modifiersText_modifiersOf (modifier : Int) :
    Notation.ModifiersText (modifiersOf modifier) (modifierText modifier) := by
  unfold modifiersOf modifierText
  split
  · exact .nil
  · have htext : Numeral.signedText modifier =
        (Numeral.signOf modifier).toChar :: (Numeral.text modifier.natAbs ++ []) := by
      rw [Numeral.signedText_eq, List.append_nil]
    rw [htext]
    exact .cons (Numeral.digits_text _) Nat.toDigits_ne_nil .nil

/-- The text of a roll writes its notation. -/
theorem writes_text (roll : Roll) : Notation.Writes roll.written roll.text := by
  have hsides : Notation.SidesText (some (Numeral.text roll.sides)) (Numeral.text roll.sides) :=
    .number (Numeral.digits_text _) Nat.toDigits_ne_nil
  have hwrites : Notation.Writes roll.written _ :=
    .intro (digits_countText roll.amount) hsides (choiceText_choiceOf roll.choice)
      (modifiersText_modifiersOf roll.modifier)
  simpa [text, Notation.markText] using hwrites

/-! ### What it is read as -/

theorem countValue_text {count : Count} {n : Nat} (h : 1 ≤ n ∧ n ≤ maxCount) :
    Notation.countValue count (Numeral.text n) = .ok n := by
  obtain ⟨hpos, hmax⟩ := h
  have hread : Numeral.read (Numeral.text n) = .ok n := by
    apply Numeral.read_text_of_lt
    exact Nat.lt_of_le_of_lt hmax (by decide)
  rw [Notation.countValue, hread]
  dsimp only
  rw [if_neg (Nat.not_lt.mpr hmax), if_neg (Nat.ne_of_gt hpos)]

theorem optionalCountValue_countText {count : Count} {n : Nat} (h : 1 ≤ n ∧ n ≤ maxCount) :
    Notation.optionalCountValue count (countText n) = .ok n := by
  unfold countText
  split
  · have hne : (Numeral.text n).isEmpty = false := by simp [Numeral.text]
    rw [Notation.optionalCountValue, hne]
    exact countValue_text h
  · obtain rfl : n = 1 := by omega
    rfl

theorem choiceValue_choiceOf {choice : Option Choice}
    (h : ∀ chosen ∈ choice, 1 ≤ chosen.amount ∧ chosen.amount ≤ maxCount) :
    Notation.choiceValue (choice.map choiceOf) = .ok choice := by
  cases choice with
  | none => rfl
  | some choice =>
    have hamount := @optionalCountValue_countText .chosen _ (h choice rfl)
    simp only [Option.map_some, choiceOf, Notation.choiceValue, hamount, Except.map]

theorem modifierValue_modifiersOf {modifier : Int}
    (h : minModifier ≤ modifier ∧ modifier ≤ maxModifier) :
    Notation.modifierValue (modifiersOf modifier) = .ok modifier := by
  have hsum : Notation.modifierSum (modifiersOf modifier) = .ok modifier := by
    unfold modifiersOf
    split
    · next hzero => rw [hzero]; rfl
    · have hshort : modifier.natAbs < 10 ^ 10 := by
        unfold minModifier maxModifier at h
        omega
      simp [Notation.modifierSum, Numeral.readSigned_text hshort, Except.map]
  rw [Notation.modifierValue, hsum]
  simp only [bind, Except.bind]
  rw [if_pos h]
  rfl

theorem value_written {roll : Roll} (h : roll.Proper) : roll.written.value = .ok roll := by
  have hsides : Notation.sidesValue roll.written.sides = .ok roll.sides := countValue_text h.sides
  rw [Notation.value, hsides, written, optionalCountValue_countText h.amount,
    choiceValue_choiceOf h.choice, modifierValue_modifiersOf h.modifier]
  rfl

/-- A proper roll reads back. -/
theorem parse?_text {roll : Roll} (h : roll.Proper) : parse? roll.text = some (.ok roll) := by
  rw [parse?, Notation.ofText?_of_writes roll.writes_text, Option.map_some, value_written h]

/-! ### Rolls that are read are proper -/

theorem range_of_countValue {count : Count} {digits : List Char} {n : Nat}
    (h : Notation.countValue count digits = .ok n) : 1 ≤ n ∧ n ≤ maxCount := by
  unfold Notation.countValue at h
  split at h
  · cases h
  split at h
  · cases h
  split at h
  · cases h
  · next hmax hzero =>
    cases h
    exact ⟨Nat.pos_of_ne_zero hzero, Nat.not_lt.mp hmax⟩

theorem range_of_optionalCountValue {count : Count} {digits : List Char} {n : Nat}
    (h : Notation.optionalCountValue count digits = .ok n) : 1 ≤ n ∧ n ≤ maxCount := by
  unfold Notation.optionalCountValue at h
  split at h
  · cases h
    decide
  · exact range_of_countValue h

theorem range_of_sidesValue {sides : Option (List Char)} {n : Nat}
    (h : Notation.sidesValue sides = .ok n) : 1 ≤ n ∧ n ≤ maxCount := by
  cases sides with
  | none =>
    cases h
    decide
  | some digits => exact range_of_countValue h

theorem range_of_choiceValue {written : Option ((Action × Side) × List Char)}
    {choice : Option Choice} (h : Notation.choiceValue written = .ok choice) :
    ∀ chosen ∈ choice, 1 ≤ chosen.amount ∧ chosen.amount ≤ maxCount := by
  cases written with
  | none =>
    cases h
    nofun
  | some written =>
    obtain ⟨⟨action, side⟩, digits⟩ := written
    cases hcount : Notation.optionalCountValue .chosen digits with
    | error error => simp [Notation.choiceValue, hcount, Except.map] at h
    | ok amount =>
      simp only [Notation.choiceValue, hcount, Except.map] at h
      cases h
      rintro chosen ⟨⟩
      exact range_of_optionalCountValue hcount

theorem range_of_modifierValue {modifiers : List (Sign × List Char)} {modifier : Int}
    (h : Notation.modifierValue modifiers = .ok modifier) :
    minModifier ≤ modifier ∧ modifier ≤ maxModifier := by
  obtain ⟨sum, -, h⟩ := bind_eq_ok_iff.mp h
  split at h
  · next hrange =>
    cases h
    exact hrange
  · split at h <;> cases h

theorem proper_of_value {written : Notation} {roll : Roll} (h : written.value = .ok roll) :
    roll.Proper := by
  obtain ⟨amount, hamount, h⟩ := bind_eq_ok_iff.mp h
  obtain ⟨sides, hsides, h⟩ := bind_eq_ok_iff.mp h
  obtain ⟨choice, hchoice, h⟩ := bind_eq_ok_iff.mp h
  obtain ⟨modifier, hmodifier, h⟩ := bind_eq_ok_iff.mp h
  cases h
  exact ⟨range_of_optionalCountValue hamount, range_of_sidesValue hsides,
    range_of_choiceValue hchoice, range_of_modifierValue hmodifier⟩

theorem proper_of_parse? {text : List Char} {roll : Roll} (h : parse? text = some (.ok roll)) :
    roll.Proper := by
  obtain ⟨written, -, hvalue⟩ := Option.map_eq_some_iff.mp h
  exact proper_of_value hvalue

end Roll

/-! ## Intervals -/

namespace Interval

/-- An interval of the integers between two bounds, as far as they are included. -/
structure Spans (i : Interval) (start stop : Int) : Prop where
  start_range : minInt ≤ start ∧ start ≤ maxInt
  stop_range : minInt ≤ stop ∧ stop ≤ maxInt
  bounds : ∃ range, IntRange.build start stop i.lowIncluded i.highIncluded = .ok range ∧
    i.bounds = .ints range

/-! ### What is printed -/

/-- An integer as it is written in a notation. -/
def numberText (z : Int) : NumberText where
  sign := if z < 0 then some .minus else none
  whole := Numeral.text z.natAbs
  fraction := none

theorem writesInt_intText (z : Int) : (numberText z).WritesInt (Numeral.intText z) := by
  have hdigits := Numeral.digits_text z.natAbs
  unfold numberText Numeral.intText
  split
  · exact .intro hdigits Nat.toDigits_ne_nil
  · exact .intro hdigits Nat.toDigits_ne_nil

/-- A range gives back the bounds that it was built from. -/
theorem eq_of_build {start stop : Int} {lowIncluded highIncluded : Bool} {range : IntRange}
    (h : IntRange.build start stop lowIncluded highIncluded = .ok range) :
    start = (if lowIncluded then range.start else range.start - 1) ∧
      stop = (if highIncluded then range.stop - 1 else range.stop) := by
  unfold IntRange.build at h
  cases lowIncluded <;> cases highIncluded
  all_goals
    simp only [throw_bind, Bool.not_true, Bool.not_false, Bool.true_and, Bool.false_and,
      Bool.false_eq_true, if_true, if_false, decide_eq_true_eq] at h ⊢
    repeat' split at h
    all_goals cases h
  all_goals
    dsimp only
    omega

/-- The notation that an interval between two bounds is printed in. -/
def writtenBetween (i : Interval) (start stop : Int) : Notation :=
  .bracket i.lowIncluded (numberText start) .dots (numberText stop) i.highIncluded

theorem Spans.text {i : Interval} {start stop : Int} (h : i.Spans start stop) :
    i.text = Notation.openChar i.lowIncluded :: (Numeral.intText start ++
      (Notation.betweenText .dots ++ (Numeral.intText stop ++
        [Notation.closeChar i.highIncluded]))) := by
  obtain ⟨range, hbuild, hbounds⟩ := h.bounds
  obtain ⟨hstart, hstop⟩ := eq_of_build hbuild
  have hends : i.endpoints = (.int start, .int stop) := by
    rw [endpoints, hbounds, hstart, hstop]
  have hint : i.isFloat = false := by rw [isFloat, hbounds]
  simp [Interval.text, hends, hint, Number.text, Notation.openChar, Notation.closeChar,
    Notation.betweenText]

/-- The text of an interval writes its notation. -/
theorem Spans.writes_text {i : Interval} {start stop : Int} (h : i.Spans start stop) :
    Notation.Writes (i.writtenBetween start stop) i.text := by
  have hgap : Notation.Gap [] := nofun
  rw [h.text]
  exact .bracket (.whole (writesInt_intText start)) (.whole (writesInt_intText stop)) hgap hgap
    hgap hgap hgap hgap

/-! ### What it is read as -/

theorem intValue_numberText {which : End} {z : Int} (h : minInt ≤ z ∧ z ≤ maxInt) :
    (numberText z).intValue which = .ok z := by
  have hshort : z.natAbs < 10 ^ 10 := by
    unfold minInt maxInt at h
    omega
  have hsign : (numberText z).sign.getD .plus = Numeral.signOf z := by
    unfold numberText Numeral.signOf
    split <;> rfl
  have hread : Numeral.readSigned (Numeral.signOf z) (numberText z).whole = .ok z :=
    Numeral.readSigned_text hshort
  rw [NumberText.intValue, hsign, hread]
  exact if_pos h

theorem Spans.value_written {i : Interval} {start stop : Int} (h : i.Spans start stop) :
    (i.writtenBetween start stop).value = .ok i := by
  obtain ⟨range, hbuild, hbounds⟩ := h.bounds
  have hvalue : (i.writtenBetween start stop).value =
      Notation.intValue i.lowIncluded (numberText start) (numberText stop) i.highIncluded := rfl
  rw [hvalue, Notation.intValue, intValue_numberText h.start_range,
    intValue_numberText h.stop_range]
  simp only [bind, Except.bind, hbuild, ← hbounds]
  rfl

/-- An interval of integers reads back. -/
theorem Spans.parse?_text {i : Interval} {start stop : Int} (h : i.Spans start stop) :
    parse? i.text = some (.ok i) := by
  rw [parse?, Notation.ofText?_of_writes h.writes_text, Option.map_some, h.value_written]

/-! ### Intervals that are read have bounds -/

theorem range_of_intValue {which : End} {n : NumberText} {z : Int}
    (h : n.intValue which = .ok z) : minInt ≤ z ∧ z ≤ maxInt := by
  unfold NumberText.intValue at h
  split at h
  · cases h
  split at h
  · next hrange =>
    cases h
    exact hrange
  · cases h

theorem exists_spans_of_intValue {lowIncluded highIncluded : Bool} {first last : NumberText}
    {i : Interval} (h : Notation.intValue lowIncluded first last highIncluded = .ok i) :
    ∃ start stop, i.Spans start stop := by
  obtain ⟨start, hstart, h⟩ := bind_eq_ok_iff.mp h
  obtain ⟨stop, hstop, h⟩ := bind_eq_ok_iff.mp h
  obtain ⟨range, hrange, h⟩ := bind_eq_ok_iff.mp h
  cases h
  exact ⟨start, stop, range_of_intValue hstart, range_of_intValue hstop, range, hrange, rfl⟩

theorem exists_spans_of_parse? {text : List Char} {i : Interval}
    (h : parse? text = some (.ok i)) (hint : i.isFloat = false) :
    ∃ start stop, i.Spans start stop := by
  obtain ⟨written, -, hvalue⟩ := Option.map_eq_some_iff.mp h
  cases written with
  | bare first last inclusive => exact exists_spans_of_intValue hvalue
  | bracket lowIncluded first between last highIncluded =>
    simp only [Notation.value] at hvalue
    split at hvalue
    · rw [(Notation.shaped_of_floatValue hvalue).isFloat] at hint
      cases hint
    · exact exists_spans_of_intValue hvalue

theorem parse?_text {text : List Char} {i : Interval} (h : parse? text = some (.ok i))
    (hint : i.isFloat = false) : parse? i.text = some (.ok i) := by
  obtain ⟨start, stop, hspans⟩ := exists_spans_of_parse? h hint
  exact hspans.parse?_text

end Interval

/-! ## Normal forms -/

/-- **What is printed reads back**: every proper roll, and every interval of integers that can be
read; so what is printed of a text that was read is printed again as it is. -/
theorem printed_reads_back :
    (∀ roll : Roll, roll.Proper → Roll.parse? roll.text = some (.ok roll)) ∧
    (∀ text interval, Interval.parse? text = some (.ok interval) → interval.isFloat = false →
      Interval.parse? interval.text = some (.ok interval)) ∧
    (∀ text roll, Roll.parse? text = some (.ok roll) →
      (Roll.parse? roll.text).map (·.map Roll.text) = some (.ok roll.text)) ∧
    (∀ text interval, Interval.parse? text = some (.ok interval) → interval.isFloat = false →
      (Interval.parse? interval.text).map (·.map Interval.text) = some (.ok interval.text)) := by
  refine ⟨fun roll hproper => Roll.parse?_text hproper,
    fun text interval h hint => Interval.parse?_text h hint, ?_, ?_⟩
  · intro text roll h
    rw [Roll.parse?_text (Roll.proper_of_parse? h)]
    rfl
  · intro text interval h hint
    rw [Interval.parse?_text h hint]
    rfl

/-- At the limits of all numbers; the bare form comes back as brackets. -/
theorem printed_reads_back_at_limits :
    let roll : Roll := ⟨65535, 65535, true, some ⟨65535, .drop, .high⟩, -2147483648⟩
    let interval : Interval := ⟨true, true, .ints ⟨-2147483648, 2147483647⟩⟩
    (roll.Proper ∧ roll.text = "65535d65535!dh65535-2147483648".toList ∧
      Roll.parse? roll.text = some (.ok roll)) ∧
    Interval.parse? "-2147483648..=2147483646".toList = some (.ok interval) ∧
    interval.isFloat = false ∧ interval.text = "[-2147483648..2147483646]".toList ∧
    Interval.parse? interval.text = some (.ok interval) := by
  intro roll interval
  obtain ⟨hrolls, hintervals, -, -⟩ := printed_reads_back
  have hproper : roll.Proper := by
    refine ⟨by decide, by decide, ?_, by decide⟩
    rintro choice ⟨⟩
    decide
  have hparse : Interval.parse? "-2147483648..=2147483646".toList = some (.ok interval) := rfl
  refine ⟨⟨hproper, by decide, hrolls roll hproper⟩, hparse, rfl, by decide, ?_⟩
  exact hintervals _ interval hparse rfl

end Lots
