import Lots.Proofs.Sample.Values

/-!
# Lots — samples in lines

A sample is rendered on one line, in full or by its value, unless it is a text that breaks the
line. Samples in a row therefore have one line each, and nothing but the line feeds tells them
apart.

* **`Sample.newline_not_mem_render`** — no rendering of a sample breaks the line; of a text, if
  the text does not.
* **`Sample.InLines`**, **`Sample.inLines_renderAll`** — the lines of a text are renderings of
  samples, in order.
* **`Sample.ValueLast`**, **`Sample.valueLast_roll`**, **`Sample.valueLast_interval`** — what the
  full rendering of a roll or of an interval has at its end.
-/

namespace Lots

open Text (Unblank)

theorem Text.Unblank.newline_not_mem {s : List Char} (h : Unblank s) : '\n' ∉ s := by
  intro hmem
  have hblank := h '\n' hmem
  revert hblank
  decide

/-! ## Rolls -/

theorem Numeral.unblank_signedText (z : Int) : Unblank (signedText z) := by
  have hsign : Text.isBlank (if z < 0 then '-' else '+') = false := by
    split <;> decide
  exact Text.unblank_cons.mpr ⟨hsign, unblank_text z.natAbs⟩

namespace Roll

theorem unblank_modifierText (modifier : Int) : Unblank (modifierText modifier) := by
  unfold modifierText
  split
  · exact Text.unblank_nil
  · exact Numeral.unblank_signedText modifier

theorem unblank_countText (n : Nat) : Unblank (countText n) := by
  unfold countText
  split
  · exact Numeral.unblank_text n
  · exact Text.unblank_nil

theorem unblank_choiceText (choice : Option Choice) : Unblank (choiceText choice) := by
  cases choice with
  | none => exact Text.unblank_nil
  | some choice =>
    have hsymbol : Unblank choice.symbol := by
      obtain ⟨amount, action, side⟩ := choice
      apply Text.unblank_of_all
      cases action <;> cases side <;> rfl
    exact Text.unblank_append.mpr ⟨hsymbol, unblank_countText choice.amount⟩

theorem unblank_text (roll : Roll) : Unblank roll.text := by
  have hletter : Text.isBlank 'd' = false := by decide
  have hmark : Unblank (if roll.exploding then ['!'] else []) := by
    split
    · exact Text.unblank_of_all (by decide)
    · exact Text.unblank_nil
  simp [text, hletter, hmark, unblank_countText, Numeral.unblank_text, unblank_choiceText,
    unblank_modifierText]

end Roll

theorem Die.unblank_text (die : Die) : Unblank die.text := by
  have hmark : Unblank (if die.dropped then ['d'] else []) := by
    split
    · exact Text.unblank_of_all (by decide)
    · exact Text.unblank_nil
  exact Text.unblank_append.mpr ⟨Numeral.unblank_intText die.value, hmark⟩

namespace RollOutcome

theorem unblank_joinPlus {texts : List (List Char)} (h : ∀ text ∈ texts, Unblank text) :
    Unblank (joinPlus texts) := by
  have hplus : Text.isBlank '+' = false := by decide
  induction texts with
  | nil => exact Text.unblank_nil
  | cons text rest ih =>
    obtain ⟨htext, hrest⟩ := List.forall_mem_cons.mp h
    cases rest with
    | nil => simpa [joinPlus] using htext
    | cons next more =>
      have hmore : Unblank (List.intercalate ['+'] (next :: more)) := ih hrest
      rw [joinPlus, List.intercalate_cons_cons]
      simp [htext, hplus, hmore]

theorem newline_not_mem_details (o : RollOutcome) : '\n' ∉ o.details := by
  have hdice : ∀ text ∈ o.dice.map Die.text, Unblank text := by
    intro text htext
    obtain ⟨die, -, rfl⟩ := List.mem_map.mp htext
    exact die.unblank_text
  unfold details
  split
  · simp [(unblank_joinPlus hdice).newline_not_mem,
      (Roll.unblank_modifierText o.roll.modifier).newline_not_mem]
  · exact List.not_mem_nil

theorem newline_not_mem_full (o : RollOutcome) : '\n' ∉ o.full := by
  have hvalue : Unblank o.value := Numeral.unblank_intText o.total
  simp [full, o.roll.unblank_text.newline_not_mem, o.newline_not_mem_details,
    hvalue.newline_not_mem]

end RollOutcome

/-! ## Intervals -/

theorem Number.unblank_text (number : Number) : Unblank number.text := by
  cases number with
  | int z => exact Numeral.unblank_intText z
  | float x => exact x.unblank_text

theorem Interval.newline_not_mem_text (i : Interval) : '\n' ∉ i.text := by
  rcases hends : i.endpoints with ⟨low, high⟩
  unfold text
  rw [hends]
  have hopen : '\n' ≠ if i.lowIncluded then '[' else '(' := by split <;> decide
  have hbetween : '\n' ∉ if i.isFloat then [',', ' '] else ['.', '.'] := by split <;> decide
  have hclose : '\n' ≠ if i.highIncluded then ']' else ')' := by split <;> decide
  simp [hopen, hbetween, hclose, low.unblank_text.newline_not_mem,
    high.unblank_text.newline_not_mem]

namespace Sample

/-! ## Lines -/

/-- **No rendering breaks the line**, but for that of a text that does. -/
theorem newline_not_mem_render {sample : Sample} (h : ∀ t, sample = .text t → '\n' ∉ t)
    (valueOnly : Bool) : '\n' ∉ sample.render valueOnly := by
  have hvalue : '\n' ∉ sample.value := by
    by_cases htext : ∃ t, sample = .text t
    · obtain ⟨t, rfl⟩ := htext
      exact h t rfl
    · exact (unblank_value fun t ht => htext ⟨t, ht⟩).newline_not_mem
  unfold render
  split
  · exact hvalue
  · cases sample with
    | text | coin | color | uuid => exact hvalue
    | roll outcome => exact outcome.newline_not_mem_full
    | interval i number =>
      simp [full, i.newline_not_mem_text, number.unblank_text.newline_not_mem]

/-- The text has a line for each sample: the sample's rendering, ended by a line feed. -/
structure InLines (valueOnly : Bool) (samples : List Sample) (text : List Char) : Prop where
  count : text.count '\n' = samples.length
  split : text.splitOn '\n' = samples.map (render valueOnly) ++ [[]]

/-- **Samples are rendered in lines**, if no text among them breaks one. -/
theorem inLines_renderAll {samples : List Sample}
    (h : ∀ x ∈ samples, ∀ t, x = .text t → '\n' ∉ t) (valueOnly : Bool) :
    InLines valueOnly samples (renderAll valueOnly samples) := by
  induction samples with
  | nil => exact ⟨rfl, rfl⟩
  | cons sample rest ih =>
    obtain ⟨hsample, hrest⟩ := List.forall_mem_cons.mp h
    have hline := newline_not_mem_render hsample valueOnly
    have hall : renderAll valueOnly (sample :: rest) =
        sample.render valueOnly ++ '\n' :: renderAll valueOnly rest := by
      simp [renderAll]
    constructor
    · rw [hall, List.count_append, List.count_eq_zero.mpr hline, List.count_cons_self,
        (ih hrest).count, List.length_cons, Nat.zero_add]
    · rw [hall, List.splitOn_append_cons_self_of_not_mem hline, (ih hrest).split]
      rfl

/-- Samples of several statements in a row are rendered as one list of samples. -/
theorem flatMap_renderAll (valueOnly : Bool) (outputs : List (List Sample)) :
    outputs.flatMap (renderAll valueOnly) = renderAll valueOnly outputs.flatten := by
  rw [renderAll, List.flatten_eq_flatMap, List.flatMap_assoc]
  rfl

/-! ## The value in the full rendering -/

/-- The full rendering ends in the value, behind a mark. No blank is in the value, so this is
the last such mark. -/
def ValueLast (sample : Sample) : Prop :=
  Unblank sample.value ∧ ∃ front mark, (mark = [':', ' '] ∨ mark = [' ', '=', ' ']) ∧
    sample.full = front ++ mark ++ sample.value

theorem valueLast_roll (outcome : RollOutcome) : (roll outcome).ValueLast := by
  refine ⟨unblank_value nofun, ?_⟩
  by_cases hdetailed : RollOutcome.isDetailed outcome.roll = true
  · refine ⟨outcome.roll.text ++ ':' :: ' ' :: '[' ::
      RollOutcome.joinPlus (outcome.dice.map Die.text) ++ ']' ::
        Roll.modifierText outcome.roll.modifier, [' ', '=', ' '], .inr rfl, ?_⟩
    simp [full, value, RollOutcome.full, RollOutcome.details, hdetailed]
  · refine ⟨outcome.roll.text, [':', ' '], .inl rfl, ?_⟩
    simp [full, value, RollOutcome.full, RollOutcome.details, hdetailed]

theorem valueLast_interval (i : Interval) (number : Number) :
    (interval i number).ValueLast := by
  refine ⟨unblank_value nofun, i.text, [':', ' '], .inl rfl, ?_⟩
  simp [full, value]

end Sample

end Lots
