import Lots.Proofs.Binary64.Decimal
import Lots.Proofs.Interval.Endpoints

/-!
# Lots — printed intervals of floating-point numbers

An interval of floating-point numbers is printed in brackets, with its ends around a comma. An end
is printed with digits that read back; but outside the magnitudes that are written positionally it
is printed with an exponent, and interval notation knows none.

* **`exists_numberText`** — a plain number is printed as a number of interval notation, which means
  it again.
* **`Notation.Writes.letter_not_mem`** — notation has no letters in it.
* **`floats_read_back`** — an interval of floating-point numbers reads back exactly if both of its
  ends are plain; with any other end its own text is no interval notation.
-/

namespace Lots.Interval

variable {low high x : Binary64} {i : Interval}

/-! ## Plain ends -/

/-- A plain number is printed as a number of interval notation that means it. -/
theorem exists_numberText (h : x.Proper) (hplain : x.Plain) :
    ∃ n : NumberText, n.Writes x.text ∧ ∀ which, n.floatValue which = .ok x := by
  obtain ⟨whole, fraction, htext, hwhole, hfraction, hne, hread⟩ := h.exists_text hplain
  refine ⟨⟨if x.negative then some .minus else none, whole, some fraction⟩, ?_, fun which => ?_⟩
  · have hwrites : ∀ sign, NumberText.Writes ⟨sign, whole, some fraction⟩
        (NumberText.signText sign ++ (whole ++ '.' :: fraction)) :=
      fun sign => .point hwhole hfraction hne
    rw [Binary64.text, htext]
    split
    · exact hwrites (some .minus)
    · exact hwrites none
  · have hsign : ((if x.negative then some .minus else none : Option Numeral.Sign) ==
        some .minus) = x.negative := by
      cases x.negative <;> rfl
    simp only [NumberText.floatValue, hsign, Option.getD_some, hread]
    exact if_pos h.isFinite

theorem text_of_floats (hbounds : i.bounds = .floats low high) :
    i.text = Notation.openChar i.lowIncluded :: (low.text ++ (Notation.betweenText .comma ++
      ([' '] ++ (high.text ++ [Notation.closeChar i.highIncluded])))) := by
  simp [Interval.text, endpoints, isFloat, hbounds, Number.text, Notation.openChar,
    Notation.closeChar, Notation.betweenText]

theorem Apart.value_bracket (h : Apart low high) (hbounds : i.bounds = .floats low high)
    {start stop : NumberText} (hstart : start.floatValue .start = .ok low)
    (hstop : stop.floatValue .stop = .ok high) :
    (Notation.bracket i.lowIncluded start .comma stop i.highIncluded).value = .ok i := by
  have hvalue : (Notation.bracket i.lowIncluded start .comma stop i.highIncluded).value =
      Notation.floatValue i.lowIncluded start stop i.highIncluded := rfl
  have hlt : ¬ ¬ low < high := not_not_intro h.lt
  rw [hvalue, Notation.floatValue, hstart, hstop]
  simp only [bind, Except.bind, if_neg hlt, h.length, Bool.not_true, Bool.false_eq_true,
    if_false, ← hbounds]
  rfl

theorem Apart.parse?_text (h : Apart low high) (hbounds : i.bounds = .floats low high)
    (hlow : low.Plain) (hhigh : high.Plain) : parse? i.text = some (.ok i) := by
  obtain ⟨start, hstart, hlowValue⟩ := exists_numberText h.properLow hlow
  obtain ⟨stop, hstop, hhighValue⟩ := exists_numberText h.properHigh hhigh
  have hgap : Notation.Gap [] := nofun
  have hspace : Notation.Gap [' '] := by
    intro c hc
    rw [List.mem_singleton.mp hc]
    rfl
  have hwrites : Notation.Writes
      (.bracket i.lowIncluded start .comma stop i.highIncluded) i.text := by
    rw [text_of_floats hbounds]
    exact .bracket hstart hstop hgap hgap hgap hspace hgap hgap
  rw [parse?, Notation.ofText?_of_writes hwrites, Option.map_some,
    h.value_bracket hbounds (hlowValue .start) (hhighValue .stop)]

/-! ## Other ends -/

theorem NumberText.letter_not_mem_signText (sign : Option Numeral.Sign) : 'e' ∉ signText sign := by
  rcases sign with _ | _ | _ <;> decide

theorem NumberText.WritesInt.letter_not_mem {n : NumberText} {text : List Char}
    (h : n.WritesInt text) : 'e' ∉ text := by
  cases h with
  | @intro sign whole hwhole hne =>
    have hletter : 'e' ∉ whole := hwhole.not_mem rfl
    simp [letter_not_mem_signText, hletter]

theorem NumberText.Writes.letter_not_mem {n : NumberText} {text : List Char} (h : n.Writes text) :
    'e' ∉ text := by
  cases h with
  | whole h => exact h.letter_not_mem
  | @point sign whole fraction hwhole hfraction hne =>
    have hletter : 'e' ∉ whole := hwhole.not_mem rfl
    have hletter' : 'e' ∉ fraction := hfraction.not_mem rfl
    simp [letter_not_mem_signText, hletter, hletter']

theorem Notation.Gap.letter_not_mem {gap : List Char} (h : Gap gap) : 'e' ∉ gap :=
  fun hmem => absurd (h 'e' hmem) (by decide)

theorem Notation.letter_not_mem_betweenText (between : Between) : 'e' ∉ betweenText between := by
  cases between <;> decide

theorem Notation.openChar_ne_letter (included : Bool) : 'e' ≠ openChar included := by
  cases included <;> decide

theorem Notation.closeChar_ne_letter (included : Bool) : 'e' ≠ closeChar included := by
  cases included <;> decide

theorem Notation.Writes.letter_not_mem {written : Notation} {text : List Char}
    (h : written.Writes text) : 'e' ∉ text := by
  cases h with
  | bare hstart hstop =>
    simp [hstart.letter_not_mem, hstop.letter_not_mem, letter_not_mem_betweenText]
  | bracket hstart hstop h₀ h₁ h₂ h₃ h₄ h₅ =>
    simp [hstart.letter_not_mem, hstop.letter_not_mem, letter_not_mem_betweenText,
      h₀.letter_not_mem, h₁.letter_not_mem, h₂.letter_not_mem, h₃.letter_not_mem,
      h₄.letter_not_mem, h₅.letter_not_mem, openChar_ne_letter, closeChar_ne_letter]

theorem parse?_of_letter {text : List Char} (h : 'e' ∈ text) : parse? text = none := by
  rw [parse?, Option.map_eq_none_iff, Option.eq_none_iff_forall_ne_some]
  intro written hwritten
  exact (Notation.ofText?_eq_some_iff.mp hwritten).letter_not_mem h

/-! ## Reading back -/

/-- **An interval of floating-point numbers reads back exactly if its ends are plain.** Then it is
read as itself, with the same ends and brackets; and otherwise its text is not recognized. -/
theorem floats_read_back {text : List Char} (h : parse? text = some (.ok i))
    (hbounds : i.bounds = .floats low high) :
    parse? i.text = if low.Plain ∧ high.Plain then some (.ok i) else none := by
  have hapart := apart_of_parse? h hbounds
  split
  · next hplain => exact hapart.parse?_text hbounds hplain.1 hplain.2
  · next hplain =>
    apply parse?_of_letter
    rw [text_of_floats hbounds]
    by_cases hlow : low.Plain
    · have hhigh : ¬ high.Plain := fun hhigh => hplain ⟨hlow, hhigh⟩
      simp [hapart.properHigh.mem_text hhigh]
    · simp [hapart.properLow.mem_text hlow]

/-- A plain interval is printed in another way than it was written, and is read as the same. -/
theorem floats_read_back_plain :
    let i : Interval := ⟨false, true, .floats ⟨true, Nat.pow 2 1072⟩ .one⟩
    parse? "( -.250 , 01 ]".toList = some (.ok i) ∧ i.text = "(-0.25, 1.0]".toList ∧
      parse? i.text = some (.ok i) := by
  intro i
  have hparse : parse? "( -.250 , 01 ]".toList = some (.ok i) := by decide +kernel
  refine ⟨hparse, by decide +kernel, ?_⟩
  rw [floats_read_back hparse rfl]
  exact if_pos (by decide +kernel)

/-- Ends of small and of great magnitude are not read back. -/
theorem floats_not_read_back :
    (∃ i low high, parse? "[0.00001, 1)".toList = some (.ok i) ∧ i.bounds = .floats low high ∧
      i.text = "[1e-05, 1.0)".toList ∧ parse? i.text = none) ∧
    (∃ i low high, parse? "[1, 10000000000000000]".toList = some (.ok i) ∧
      i.bounds = .floats low high ∧ i.text = "[1.0, 1e+16]".toList ∧ parse? i.text = none) := by
  constructor
  · exact ⟨⟨true, false, .floats (.ofDecimal false ['1'] 5) .one⟩, _, _, by decide +kernel, rfl,
      by decide +kernel, by decide +kernel⟩
  · exact ⟨⟨true, true, .floats .one (.ofDecimal false (Numeral.text (10 ^ 16)) 0)⟩, _, _,
      by decide +kernel, rfl, by decide +kernel, by decide +kernel⟩

end Lots.Interval
