import Lots.Interval.Sampling
import Lots.Proofs.Expr.Printing
import Lots.Source.Tape

/-!
# Lots — intervals of integers

An interval of integers is the set of those between two limits that are written, each of which
belongs to it or not. It is kept as a half-open range, so an excluded low limit and an included
high limit are moved up by one; both forms of the notation are kept so.

* **`Limits`** — what is written: two integers, and whether they belong to the interval;
  `Limits.Holds` are the two inequalities, and `Limits.holds_iff` is the half-open range of them.
* **`Limits.Refused`** — limits that make no interval: out of range themselves or when they are
  moved, or with nothing between them.
* **`Denotes`** — an interval that is the set between its limits: `denotes_of_not_refused`. What
  is drawn from it are the members of this set (`Denotes.draw_iff`).
* **`integers_denote`** — intervals of integers are read as the set that is written, or refused.
-/

namespace Lots

/-- A source that answers a request for an integer with each one of the range, and no other. -/
def Source.Ranges (σ : Type) [Source σ] : Prop :=
  ∀ low high z, (∃ s s' : σ, Source.range low high s = some (z, s')) ↔ low ≤ z ∧ z < high

/-- Tapes answer so. -/
theorem Tape.ranges : Source.Ranges Tape := by
  intro low high z
  have hanswers := Tape.answers_iff (.range low high) z
  simpa [Source.range, Request.allows] using hanswers

namespace Interval

open Numeral (digitLimit)

/-- An integer of 32 bits. -/
def InRange (z : Int) : Prop :=
  minInt ≤ z ∧ z ≤ maxInt

instance (z : Int) : Decidable (InRange z) :=
  inferInstanceAs (Decidable (_ ∧ _))

/-! ## Limits -/

/-- The limits of an interval of integers, as they are written. -/
structure Limits where
  lowIncluded : Bool
  low : Int
  high : Int
  highIncluded : Bool

namespace Limits

variable {limits : Limits}

/-- The integer is between the limits. -/
structure Holds (limits : Limits) (x : Int) : Prop where
  low : if limits.lowIncluded then limits.low ≤ x else limits.low < x
  high : if limits.highIncluded then x ≤ limits.high else x < limits.high

/-- No interval has these limits. -/
inductive Refused (limits : Limits) : Prop where
  | low (h : ¬ InRange limits.low)
  | high (h : ¬ InRange limits.high)
  | lowMoves (hexcluded : limits.lowIncluded = false) (h : limits.low = maxInt)
  | highMoves (hincluded : limits.highIncluded = true) (h : limits.high = maxInt)
  | empty (h : ∀ x, ¬ limits.Holds x)

/-- The first integer between the limits. -/
def first (limits : Limits) : Int :=
  if limits.lowIncluded then limits.low else limits.low + 1

/-- The first integer past the limits. -/
def past (limits : Limits) : Int :=
  if limits.highIncluded then limits.high + 1 else limits.high

theorem low_iff {x : Int} :
    (if limits.lowIncluded then limits.low ≤ x else limits.low < x) ↔ limits.first ≤ x := by
  unfold first
  cases limits.lowIncluded
  · exact Int.lt_iff_add_one_le
  · exact Iff.rfl

theorem high_iff {x : Int} :
    (if limits.highIncluded then x ≤ limits.high else x < limits.high) ↔ x < limits.past := by
  unfold past
  cases limits.highIncluded
  · exact Iff.rfl
  · exact Int.lt_add_one_iff.symm

/-- Between the limits is a half-open range. -/
theorem holds_iff {x : Int} : limits.Holds x ↔ limits.first ≤ x ∧ x < limits.past :=
  ⟨fun h => ⟨low_iff.mp h.low, high_iff.mp h.high⟩,
    fun h => ⟨low_iff.mpr h.1, high_iff.mpr h.2⟩⟩

theorem not_holds_iff : (∀ x, ¬ limits.Holds x) ↔ limits.past ≤ limits.first := by
  simp only [holds_iff]
  constructor
  · intro h
    have hfirst := h limits.first
    omega
  · intro h x
    omega

/-- The interval of the limits that were moved. -/
def interval (limits : Limits) : Interval where
  lowIncluded := limits.lowIncluded
  highIncluded := limits.highIncluded
  bounds := .ints ⟨limits.first, limits.past⟩

theorem moves_low (hlow : InRange limits.low) :
    limits.lowIncluded = false ∧ maxInt < limits.first ↔
      limits.lowIncluded = false ∧ limits.low = maxInt := by
  unfold InRange at hlow
  apply and_congr_right
  intro hexcluded
  rw [first, hexcluded]
  simp only [Bool.false_eq_true, if_false]
  omega

theorem moves_high (hhigh : InRange limits.high) :
    limits.highIncluded = true ∧ maxInt < limits.past ↔
      limits.highIncluded = true ∧ limits.high = maxInt := by
  unfold InRange at hhigh
  apply and_congr_right
  intro hincluded
  rw [past, hincluded]
  simp only [if_true]
  omega

/-- A limit that is moved out of range is refused first, and then limits with nothing between. -/
theorem build_eq (hlow : InRange limits.low) (hhigh : InRange limits.high) :
    IntRange.build limits.low limits.high limits.lowIncluded limits.highIncluded =
      if limits.lowIncluded = false ∧ limits.low = maxInt then .error (.tooBig .start)
      else if limits.highIncluded = true ∧ limits.high = maxInt then .error (.tooBig .stop)
      else if limits.past ≤ limits.first then .error .empty
      else .ok ⟨limits.first, limits.past⟩ := by
  simp only [← moves_low hlow, ← moves_high hhigh, IntRange.build, throw_bind,
    Bool.and_eq_true, Bool.not_eq_true', decide_eq_true_eq]
  rfl

/-- The outcome for limits that are read. -/
def outcome (limits : Limits) : Except Error Interval :=
  if ¬ InRange limits.low then .error (.doesNotFit .start)
  else if ¬ InRange limits.high then .error (.doesNotFit .stop)
  else if limits.lowIncluded = false ∧ limits.low = maxInt then .error (.tooBig .start)
  else if limits.highIncluded = true ∧ limits.high = maxInt then .error (.tooBig .stop)
  else if limits.past ≤ limits.first then .error .empty
  else .ok limits.interval

theorem map_build (hlow : InRange limits.low) (hhigh : InRange limits.high) :
    (IntRange.build limits.low limits.high limits.lowIncluded limits.highIncluded).map
        (fun range => (⟨limits.lowIncluded, limits.highIncluded, .ints range⟩ : Interval)) =
      limits.outcome := by
  have hfitsLow : ¬ ¬ InRange limits.low := fun h => h hlow
  have hfitsHigh : ¬ ¬ InRange limits.high := fun h => h hhigh
  rw [build_eq hlow hhigh, outcome, if_neg hfitsLow, if_neg hfitsHigh]
  by_cases hlowMoves : limits.lowIncluded = false ∧ limits.low = maxInt
  · rw [if_pos hlowMoves, if_pos hlowMoves]
    rfl
  rw [if_neg hlowMoves, if_neg hlowMoves]
  by_cases hhighMoves : limits.highIncluded = true ∧ limits.high = maxInt
  · rw [if_pos hhighMoves, if_pos hhighMoves]
    rfl
  rw [if_neg hhighMoves, if_neg hhighMoves]
  by_cases hempty : limits.past ≤ limits.first
  · rw [if_pos hempty, if_pos hempty]
    rfl
  · rw [if_neg hempty, if_neg hempty]
    rfl

/-- The outcome is an error exactly for limits that make no interval. -/
theorem outcome_cases (limits : Limits) :
    (limits.Refused ∧ ∃ error, limits.outcome = .error error) ∨
      ¬ limits.Refused ∧ limits.outcome = .ok limits.interval := by
  unfold outcome
  split
  · next hlow => exact .inl ⟨.low hlow, _, rfl⟩
  split
  · next hhigh => exact .inl ⟨.high hhigh, _, rfl⟩
  split
  · next hmoves => exact .inl ⟨.lowMoves hmoves.1 hmoves.2, _, rfl⟩
  split
  · next hmoves => exact .inl ⟨.highMoves hmoves.1 hmoves.2, _, rfl⟩
  split
  · next hempty => exact .inl ⟨.empty (not_holds_iff.mpr hempty), _, rfl⟩
  · next hlow hhigh hlowMoves hhighMoves hempty =>
    refine .inr ⟨?_, rfl⟩
    intro hrefused
    cases hrefused with
    | low h => exact hlow h
    | high h => exact hhigh h
    | lowMoves hexcluded h => exact hlowMoves ⟨hexcluded, h⟩
    | highMoves hincluded h => exact hhighMoves ⟨hincluded, h⟩
    | empty h => exact hempty (not_holds_iff.mp h)

end Limits

/-! ## Notation -/

/-- The integer that sign and digits mean. -/
def NumberText.meant (n : NumberText) : Int :=
  (n.sign.getD .plus).apply (Numeral.value n.whole)

theorem NumberText.intValue_eq {n : NumberText} (which : End) (h : n.whole.length ≤ digitLimit) :
    n.intValue which = if InRange n.meant then .ok n.meant else .error (.doesNotFit which) := by
  rw [intValue, Numeral.readSigned_of_length_le h]
  rfl

namespace Notation

/-- The notation is about integers, between these limits. -/
inductive HasLimits : Notation → Limits → Prop where
  | bare {start stop : NumberText} {inclusive : Bool} :
      HasLimits (.bare start stop inclusive) ⟨true, start.meant, stop.meant, inclusive⟩
  | bracket {start stop : NumberText} {between : Between} {lowIncluded highIncluded : Bool}
      (hbetween : between ≠ .comma) (hstart : start.fraction = none)
      (hstop : stop.fraction = none) :
      HasLimits (.bracket lowIncluded start between stop highIncluded)
        ⟨lowIncluded, start.meant, stop.meant, highIncluded⟩

theorem isFloat_eq_false {start stop : NumberText} {between : Between}
    (hbetween : between ≠ .comma) (hstart : start.fraction = none)
    (hstop : stop.fraction = none) : isFloat start between stop = false := by
  simp [isFloat, hbetween, hstart, hstop]

theorem intValue_eq {start stop : NumberText} {lowIncluded highIncluded : Bool}
    (hstart : start.whole.length ≤ digitLimit) (hstop : stop.whole.length ≤ digitLimit) :
    intValue lowIncluded start stop highIncluded =
      Limits.outcome ⟨lowIncluded, start.meant, stop.meant, highIncluded⟩ := by
  rw [intValue, start.intValue_eq .start hstart, stop.intValue_eq .stop hstop]
  by_cases hlow : InRange start.meant
  · by_cases hhigh : InRange stop.meant
    · rw [if_pos hlow, if_pos hhigh]
      exact @Limits.map_build ⟨lowIncluded, _, _, highIncluded⟩ hlow hhigh
    · simp only [Limits.outcome, hlow, hhigh, not_true_eq_false, not_false_eq_true, if_true,
        if_false]
      rfl
  · simp only [Limits.outcome, hlow, not_false_eq_true, if_true, if_false]
    rfl

theorem value_eq {written : Notation} {limits : Limits} (h : written.HasLimits limits)
    (hshort : ∀ digits ∈ written.integers, digits.length ≤ digitLimit) :
    written.value = limits.outcome := by
  cases h with
  | bare =>
    simp only [integers, List.forall_mem_cons] at hshort
    exact intValue_eq hshort.1 hshort.2.1
  | bracket hbetween hstart hstop =>
    have hint := isFloat_eq_false hbetween hstart hstop
    simp only [integers, hint, Bool.false_eq_true, if_false, List.forall_mem_cons] at hshort
    simp only [value, hint, Bool.false_eq_true, if_false]
    exact intValue_eq hshort.1 hshort.2.1

end Notation

/-! ## Sets -/

/-- The interval is the set between the limits, kept as a half-open range, and gives the limits
back. -/
structure Denotes (i : Interval) (limits : Limits) : Prop where
  lowIncluded : i.lowIncluded = limits.lowIncluded
  highIncluded : i.highIncluded = limits.highIncluded
  range : ∃ range, i.bounds = .ints range ∧ range.start < range.stop ∧
    InRange range.start ∧ InRange range.stop ∧
    ∀ x, range.start ≤ x ∧ x < range.stop ↔ limits.Holds x
  endpoints : i.endpoints = (.int limits.low, .int limits.high)

theorem Limits.first_inRange {limits : Limits} (h : ¬ limits.Refused) : InRange limits.first := by
  have hlow : InRange limits.low := Decidable.not_not.mp fun hlow => h (.low hlow)
  cases hincluded : limits.lowIncluded with
  | true =>
    rw [first, hincluded]
    exact hlow
  | false =>
    have hne : limits.low ≠ maxInt := fun heq => h (.lowMoves hincluded heq)
    rw [first, hincluded]
    unfold InRange at hlow ⊢
    simp only [Bool.false_eq_true, if_false]
    omega

theorem Limits.past_inRange {limits : Limits} (h : ¬ limits.Refused) : InRange limits.past := by
  have hhigh : InRange limits.high := Decidable.not_not.mp fun hhigh => h (.high hhigh)
  cases hincluded : limits.highIncluded with
  | false =>
    rw [past, hincluded]
    exact hhigh
  | true =>
    have hne : limits.high ≠ maxInt := fun heq => h (.highMoves hincluded heq)
    rw [past, hincluded]
    unfold InRange at hhigh ⊢
    simp only [if_true]
    omega

theorem denotes_of_not_refused {limits : Limits} (h : ¬ limits.Refused) :
    limits.interval.Denotes limits where
  lowIncluded := rfl
  highIncluded := rfl
  range := by
    refine ⟨_, rfl, ?_, Limits.first_inRange h, Limits.past_inRange h, ?_⟩
    · show limits.first < limits.past
      apply Int.not_le.mp
      intro hempty
      exact h (.empty (Limits.not_holds_iff.mpr hempty))
    · intro x
      exact Limits.holds_iff.symm
  endpoints := by
    obtain ⟨lowIncluded, low, high, highIncluded⟩ := limits
    cases lowIncluded <;> cases highIncluded <;>
      simp [endpoints, Limits.interval, Limits.first, Limits.past]

/-- From a source that answers with every integer of a range, every member of the set may be
drawn, and nothing else. -/
theorem Denotes.draw_iff {σ : Type} [Source σ] (hsource : Source.Ranges σ) {i : Interval}
    {limits : Limits} (h : i.Denotes limits) (x : Number) :
    (∃ s s' : σ, i.draw s = some (x, s')) ↔ ∃ z, x = .int z ∧ limits.Holds z := by
  obtain ⟨range, hbounds, -, -, -, hholds⟩ := h.range
  have hdraw : ∀ s : σ, i.draw s =
      (Source.range range.start range.stop s).map fun drawn => (.int drawn.1, drawn.2) := by
    intro s
    rw [draw, hbounds]
  simp only [hdraw, Option.map_eq_some_iff, Prod.mk.injEq, Prod.exists]
  constructor
  · rintro ⟨s, s', z, t, hz, rfl, rfl⟩
    exact ⟨z, rfl, (hholds z).mp ((hsource _ _ z).mp ⟨s, t, hz⟩)⟩
  · rintro ⟨z, rfl, hz⟩
    obtain ⟨s, s', hrange⟩ := (hsource range.start range.stop z).mpr ((hholds z).mpr hz)
    exact ⟨s, s', z, s', hrange, rfl, rfl⟩

/-! ## Two notations -/

theorem NumberText.WritesInt.fraction {n : NumberText} {text : List Char} (h : n.WritesInt text) :
    n.fraction = none := by
  cases h with
  | intro => rfl

/-- Two integers around dots are the interval in brackets with its low end included. -/
theorem parse?_bare_eq_bracket {start stop : NumberText} {s t : List Char} (inclusive : Bool)
    (hstart : start.WritesInt s) (hstop : stop.WritesInt t) :
    parse? (s ++ (Notation.betweenText (Notation.dotsBetween inclusive) ++ t)) =
      parse? ('[' :: (s ++ (Notation.betweenText .dots ++
        (t ++ [Notation.closeChar inclusive])))) := by
  have hgap : Notation.Gap [] := nofun
  have hbracket : Notation.Writes (.bracket true start .dots stop inclusive)
      ('[' :: (s ++ (Notation.betweenText .dots ++ (t ++ [Notation.closeChar inclusive])))) :=
    .bracket (.whole hstart) (.whole hstop) hgap hgap hgap hgap hgap hgap
  have hint : Notation.isFloat start .dots stop = false :=
    Notation.isFloat_eq_false nofun hstart.fraction hstop.fraction
  rw [parse?, parse?, Notation.ofText?_of_writes (.bare hstart hstop),
    Notation.ofText?_of_writes hbracket]
  simp only [Option.map_some, Notation.value, hint, Bool.false_eq_true, if_false]

/-- **Intervals of integers are the sets that are written.** With limits that are read, they are
refused exactly if the limits make no interval, and otherwise they denote the set between them. The
members of this set may be drawn, and nothing else. And the form without brackets is read as the
one with brackets, for the same integers. -/
theorem integers_denote :
    (∀ text written limits, Notation.Writes written text → written.HasLimits limits →
      (∀ digits ∈ written.integers, digits.length ≤ digitLimit) →
      ((∃ error, parse? text = some (.error error)) ↔ limits.Refused) ∧
        (¬ limits.Refused → ∃ i, parse? text = some (.ok i) ∧ i.Denotes limits)) ∧
    (∀ (σ : Type) [Source σ], Source.Ranges σ → ∀ (i : Interval) (limits : Limits),
      i.Denotes limits →
      ∀ x, (∃ s s' : σ, i.draw s = some (x, s')) ↔ ∃ z, x = .int z ∧ limits.Holds z) ∧
    (∀ (start stop : NumberText) (s t : List Char), start.WritesInt s → stop.WritesInt t →
      parse? (s ++ ['.', '.'] ++ t) = parse? ('[' :: s ++ ['.', '.'] ++ t ++ [')']) ∧
        parse? (s ++ ['.', '.', '='] ++ t) = parse? ('[' :: s ++ ['.', '.'] ++ t ++ [']'])) := by
  refine ⟨?_, ?_, ?_⟩
  · intro text written limits hwrites hlimits hshort
    have hparse : parse? text = some limits.outcome := by
      rw [parse?, Notation.ofText?_of_writes hwrites, Option.map_some,
        Notation.value_eq hlimits hshort]
    rcases limits.outcome_cases with ⟨hrefused, error, houtcome⟩ | ⟨hfine, houtcome⟩
    · rw [houtcome] at hparse
      exact ⟨iff_of_true ⟨error, hparse⟩ hrefused, fun h => absurd hrefused h⟩
    · rw [houtcome] at hparse
      refine ⟨iff_of_false ?_ hfine, fun _ => ⟨_, hparse, denotes_of_not_refused hfine⟩⟩
      rintro ⟨error, herror⟩
      rw [hparse] at herror
      cases herror
  · intro σ _ hsource i limits hdenotes x
    exact hdenotes.draw_iff hsource x
  · intro start stop s t hstart hstop
    have hexcluded := parse?_bare_eq_bracket false hstart hstop
    have hincluded := parse?_bare_eq_bracket true hstart hstop
    simpa [Notation.betweenText, Notation.dotsBetween, Notation.closeChar]
      using And.intro hexcluded hincluded

/-- An excluded low limit is not drawn, an included high limit is; and the greatest integer cannot
be included. -/
theorem integers_denote_half_open :
    (∃ i, parse? "(1..3]".toList = some (.ok i) ∧ i.Denotes ⟨false, 1, 3, true⟩ ∧
      (∃ s s' : Tape, i.draw s = some (.int 3, s')) ∧
      ¬ ∃ s s' : Tape, i.draw s = some (.int 1, s')) ∧
    (∃ error, parse? "0..=2147483647".toList = some (.error error)) ∧
    parse? "1..=3".toList = parse? "[1..3]".toList := by
  obtain ⟨hread, hdrawn, hagree⟩ := integers_denote
  refine ⟨?_, ?_, ?_⟩
  · have hwrites := @Notation.writes_of_ofText? _ "(1..3]".toList rfl
    have hfine : ¬ Limits.Refused ⟨false, 1, 3, true⟩ := by
      intro hrefused
      cases hrefused with
      | low h | high h => exact h (by decide)
      | lowMoves _ h | highMoves _ h => exact absurd h (by decide)
      | empty h => exact h 2 ⟨by decide, by decide⟩
    have hlimits := hread _ _ ⟨false, 1, 3, true⟩ hwrites (.bracket nofun rfl rfl) (by decide)
    obtain ⟨i, hparse, hdenotes⟩ := hlimits.2 hfine
    refine ⟨i, hparse, hdenotes, ?_, ?_⟩
    · exact (hdrawn Tape Tape.ranges i _ hdenotes _).mpr ⟨3, rfl, by decide, by decide⟩
    · intro hone
      obtain ⟨z, hz, hholds⟩ := (hdrawn Tape Tape.ranges i _ hdenotes _).mp hone
      cases hz
      exact absurd hholds.low (by decide)
  · have hwrites := @Notation.writes_of_ofText? _ "0..=2147483647".toList rfl
    obtain ⟨hrefused, -⟩ := hread _ _ ⟨true, 0, 2147483647, true⟩ hwrites .bare (by decide)
    exact hrefused.mpr (.highMoves rfl rfl)
  · have hone : NumberText.WritesInt ⟨none, ['1'], none⟩ ['1'] := .intro (by decide) (by decide)
    have hthree : NumberText.WritesInt ⟨none, ['3'], none⟩ ['3'] := .intro (by decide) (by decide)
    exact (hagree _ _ _ _ hone hthree).2

end Interval

end Lots
