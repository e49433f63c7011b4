import Lots.Proofs.Text.Runs
import Lots.Roll.Notation

/-!
# Lots — the grammar of dice notation

What dice notation is, said without a recognizer, and that the recognizer finds exactly this.
The notation is a number of dice that may be left out, the letter `d`, a number of sides or a
percent sign, a mark that may be left out, a choice that may be left out, and modifiers in any
number. No blanks stand in it, and nothing before or behind it.

* **`Writes`** — a text writes a notation: the texts of its parts, one behind the other.
* **`takeSides_of_sidesText`**, **`takeChoice_of_choiceText`**, **`modifiers?_of_modifiersText`** —
  completeness, part by part: what is written is taken, and what follows is left. The letter `d`
  of a choice is no second `d` of the dice, since digits or a percent sign stand between.
* **`ofText?_eq_some_iff`** — the recognizer finds a notation exactly in the texts that write it;
  so no text writes two of them.
-/

namespace Lots.Roll.Notation

open Numeral (Sign)
open Text (Digits Bounded StartsIn)

/-! ## The grammar -/

/-- A number of sides, or a percent sign. -/
inductive SidesText : Option (List Char) → List Char → Prop where
  | percent : SidesText none ['%']
  | number {digits : List Char} (hdigits : Digits digits) (hne : digits ≠ []) :
      SidesText (some digits) digits

def markText (exploding : Bool) : List Char :=
  if exploding then ['!'] else []

/-- What is chosen. The side may be left out: keeping is from the high side, and dropping from
the low side. -/
inductive KindText : Action × Side → List Char → Prop where
  | keep : KindText (.keep, .high) ['k']
  | keepHigh : KindText (.keep, .high) ['k', 'h']
  | keepLow : KindText (.keep, .low) ['k', 'l']
  | drop : KindText (.drop, .low) ['d']
  | dropLow : KindText (.drop, .low) ['d', 'l']
  | dropHigh : KindText (.drop, .high) ['d', 'h']

/-- A choice, with a number that may be left out; or none. -/
inductive ChoiceText : Option ((Action × Side) × List Char) → List Char → Prop where
  | none : ChoiceText none []
  | some {kind : Action × Side} {letters digits : List Char} (hkind : KindText kind letters)
      (hdigits : Digits digits) : ChoiceText (some (kind, digits)) (letters ++ digits)

inductive ModifiersText : List (Sign × List Char) → List Char → Prop where
  | nil : ModifiersText [] []
  | cons {sign : Sign} {digits text : List Char} {modifiers : List (Sign × List Char)}
      (hdigits : Digits digits) (hne : digits ≠ []) (hrest : ModifiersText modifiers text) :
      ModifiersText ((sign, digits) :: modifiers) (sign.toChar :: (digits ++ text))

/-- The text writes this notation. -/
inductive Writes : Notation → List Char → Prop where
  | intro {amount sidesText choiceText modifiersText : List Char} {sides : Option (List Char)}
      {exploding : Bool} {choice : Option ((Action × Side) × List Char)}
      {modifiers : List (Sign × List Char)} (hamount : Digits amount)
      (hsides : SidesText sides sidesText) (hchoice : ChoiceText choice choiceText)
      (hmodifiers : ModifiersText modifiers modifiersText) :
      Writes { amount, sides, exploding, choice, modifiers }
        (amount ++ 'd' :: (sidesText ++ (markText exploding ++ (choiceText ++ modifiersText))))

/-! ## What stands behind a part -/

theorem ModifiersText.startsIn {modifiers : List (Sign × List Char)} {text : List Char}
    (h : ModifiersText modifiers text) : StartsIn ['+', '-'] text := by
  cases h with
  | nil => nofun
  | @cons sign =>
    rintro c ⟨⟩
    cases sign <;> decide

theorem ChoiceText.startsIn {choice : Option ((Action × Side) × List Char)} {text rest : List Char}
    (h : ChoiceText choice text) (hrest : StartsIn ['+', '-'] rest) :
    StartsIn ['k', 'd', '+', '-'] (text ++ rest) := by
  intro c hc
  cases h with
  | none =>
    have hsign : c = '+' ∨ c = '-' := by simpa using hrest c hc
    rcases hsign with rfl | rfl <;> decide
  | some hkind =>
    cases hkind
    all_goals
      cases hc
      decide

theorem startsIn_markText (exploding : Bool) {rest : List Char}
    (hrest : StartsIn ['k', 'd', '+', '-'] rest) :
    StartsIn ['!', 'k', 'd', '+', '-'] (markText exploding ++ rest) := by
  intro c hc
  cases exploding with
  | false => exact List.mem_cons_of_mem _ (hrest c hc)
  | true =>
    cases hc
    decide

/-! ## Completeness -/

theorem takeSides_of_sidesText {sides : Option (List Char)} {text rest : List Char}
    (h : SidesText sides text) (hrest : Bounded Char.isDigit rest) :
    takeSides (text ++ rest) = some (sides, rest) := by
  cases h with
  | percent => rfl
  | number hdigits hne =>
    unfold takeSides
    split
    · next hpercent =>
      -- a digit is no percent sign
      cases text with
      | nil => exact absurd rfl hne
      | cons c digits =>
        obtain ⟨rfl, -⟩ := List.cons.inj hpercent
        cases hdigits '%' List.mem_cons_self
    · simp [Text.takeWhile_run hdigits hrest, Text.dropWhile_run hdigits hrest, hne]

theorem takeMark_markText {exploding : Bool} {rest : List Char}
    (hrest : StartsIn ['k', 'd', '+', '-'] rest) :
    takeMark (markText exploding ++ rest) = (exploding, rest) := by
  cases exploding with
  | true => rfl
  | false =>
    unfold takeMark
    split
    · next hmark =>
      have hrest' : rest = '!' :: _ := hmark
      subst hrest'
      exact absurd (hrest '!' rfl) (by decide)
    · rfl

/-- Letters that name no side end the letters of a choice. -/
theorem takeKind_of_kindText {kind : Action × Side} {letters rest : List Char}
    (h : KindText kind letters) (hrest : ∀ c ∈ rest.head?, c ≠ 'h' ∧ c ≠ 'l') :
    takeKind (letters ++ rest) = (some kind, rest) := by
  have hside : ∀ more, rest ≠ 'l' :: more ∧ rest ≠ 'h' :: more := by
    intro more
    constructor
    · rintro rfl
      exact (hrest 'l' rfl).2 rfl
    · rintro rfl
      exact (hrest 'h' rfl).1 rfl
  cases h with
  | keepHigh | keepLow | dropLow | dropHigh => rfl
  | keep => exact takeKind.eq_3 rest (fun more => (hside more).1) (fun more => (hside more).2)
  | drop => exact takeKind.eq_6 rest (fun more => (hside more).1) (fun more => (hside more).2)

theorem takeChoice_of_choiceText {choice : Option ((Action × Side) × List Char)}
    {text rest : List Char} (h : ChoiceText choice text) (hrest : StartsIn ['+', '-'] rest) :
    takeChoice (text ++ rest) = (choice, rest) := by
  have hbounded : Bounded Char.isDigit rest := hrest.bounded (by decide)
  cases h with
  | none =>
    have hkind : takeKind rest = (none, rest) := by
      unfold takeKind
      split
      all_goals first | rfl | exact absurd (hrest _ rfl) (by decide)
    simp [takeChoice, hkind]
  | @some kind letters digits hkind hdigits =>
    have htake : takeKind (letters ++ (digits ++ rest)) = (some kind, digits ++ rest) := by
      apply takeKind_of_kindText hkind
      intro c hc
      -- the letters are followed by a digit, by a sign or by nothing
      cases digits with
      | nil =>
        have hsign : c = '+' ∨ c = '-' := by simpa using hrest c hc
        rcases hsign with rfl | rfl <;> decide
      | cons d digits =>
        cases hc
        have hdigit := hdigits c List.mem_cons_self
        constructor
        all_goals
          rintro rfl
          cases hdigit
    rw [List.append_assoc, takeChoice, htake]
    simp only [Text.takeWhile_run hdigits hbounded, Text.dropWhile_run hdigits hbounded]

theorem modifiers?_of_modifiersText {modifiers : List (Sign × List Char)} {text : List Char}
    (h : ModifiersText modifiers text) : modifiers? text = some modifiers := by
  induction h with
  | nil => rw [modifiers?]
  | @cons sign digits text modifiers hdigits hne hrest ih =>
    have hbounded : Bounded Char.isDigit text := hrest.startsIn.bounded (by decide)
    have htake := Text.takeWhile_run hdigits hbounded
    have hdrop := Text.dropWhile_run hdigits hbounded
    obtain ⟨d, ds, rfl⟩ := List.exists_cons_of_ne_nil hne
    rw [modifiers?]
    simp only [Numeral.ofChar?_toChar, htake, hdrop, ih, Option.map_some]

theorem ofText?_of_writes {written : Notation} {text : List Char} (h : Writes written text) :
    ofText? text = some written := by
  cases h with
  | @intro amount sidesText choiceText modifiersText sides exploding choice modifiers hamount
      hsides hchoice hmodifiers =>
    have hsigns := hmodifiers.startsIn
    have hletters := hchoice.startsIn hsigns
    have hmarks := startsIn_markText exploding hletters
    have hbehind : ∀ rest, Bounded Char.isDigit ('d' :: rest) :=
      fun rest => Text.bounded_cons (by decide)
    -- the parts are taken one after the other, each bounded by the next
    unfold ofText?
    rw [Text.dropWhile_run hamount (hbehind _), Text.takeWhile_run hamount (hbehind _)]
    simp only [takeSides_of_sidesText hsides (hmarks.bounded (by decide)),
      takeMark_markText hletters, takeChoice_of_choiceText hchoice hsigns,
      modifiers?_of_modifiersText hmodifiers, Option.bind_eq_bind, Option.bind_some]
    rfl

/-! ## Soundness -/

theorem exists_sidesText {s rest : List Char} {sides : Option (List Char)}
    (h : takeSides s = some (sides, rest)) :
    ∃ text, SidesText sides text ∧ s = text ++ rest := by
  unfold takeSides at h
  split at h
  · cases h
    exact ⟨_, .percent, rfl⟩
  · dsimp only at h
    split at h
    · cases h
    · next hne =>
      cases h
      refine ⟨_, .number (Text.digits_takeWhile s) (by simpa using hne), ?_⟩
      exact List.takeWhile_append_dropWhile.symm

theorem eq_markText_append (s : List Char) :
    s = markText (takeMark s).1 ++ (takeMark s).2 := by
  unfold takeMark
  split <;> rfl

theorem exists_kindText {s rest : List Char} {kind : Action × Side}
    (h : takeKind s = (some kind, rest)) : ∃ letters, KindText kind letters ∧ s = letters ++ rest := by
  unfold takeKind at h
  split at h
  all_goals cases h
  · exact ⟨_, .keepLow, rfl⟩
  · exact ⟨_, .keepHigh, rfl⟩
  · exact ⟨_, .keep, rfl⟩
  · exact ⟨_, .dropLow, rfl⟩
  · exact ⟨_, .dropHigh, rfl⟩
  · exact ⟨_, .drop, rfl⟩

theorem eq_of_takeKind_none {s rest : List Char} (h : takeKind s = (none, rest)) : s = rest := by
  unfold takeKind at h
  split at h
  all_goals cases h
  rfl

theorem exists_choiceText (s : List Char) :
    ∃ text, ChoiceText (takeChoice s).1 text ∧ s = text ++ (takeChoice s).2 := by
  unfold takeChoice
  split
  · next kind rest hkind =>
    obtain ⟨letters, hletters, rfl⟩ := exists_kindText hkind
    refine ⟨_, .some hletters (Text.digits_takeWhile rest), ?_⟩
    rw [List.append_assoc, List.takeWhile_append_dropWhile]
  · next rest hkind => exact ⟨[], .none, eq_of_takeKind_none hkind⟩

theorem modifiersText_of_modifiers? {text : List Char} {modifiers : List (Sign × List Char)}
    (h : modifiers? text = some modifiers) : ModifiersText modifiers text := by
  fun_induction modifiers? text generalizing modifiers with
  | case1 =>
    cases h
    exact .nil
  | case2 c rest sign d ds hdigits hsign ih =>
    obtain ⟨more, hmore, rfl⟩ := Option.map_eq_some_iff.mp h
    have hrun : Digits (d :: ds) := hdigits ▸ Text.digits_takeWhile rest
    have hsplit : rest = (d :: ds) ++ rest.dropWhile Char.isDigit := by
      rw [← hdigits, List.takeWhile_append_dropWhile]
    rw [Numeral.toChar_of_ofChar? hsign, hsplit]
    exact .cons hrun (List.cons_ne_nil d ds) (ih hmore)
  | case3 => cases h

theorem writes_of_ofText? {written : Notation} {text : List Char}
    (h : ofText? text = some written) : Writes written text := by
  unfold ofText? at h
  split at h
  · next rest hd =>
    simp only [Option.bind_eq_bind, Option.bind_eq_some_iff, Option.pure_def,
      Option.some.injEq] at h
    obtain ⟨⟨sides, behind⟩, hsides, modifiers, hmodifiers, rfl⟩ := h
    obtain ⟨sidesText, hsidesText, rfl⟩ := exists_sidesText hsides
    obtain ⟨choiceText, hchoiceText, hchoice⟩ := exists_choiceText (takeMark behind).2
    have hmodifiersText := modifiersText_of_modifiers? hmodifiers
    have hwrites : Writes ⟨text.takeWhile Char.isDigit, sides, (takeMark behind).1, _, modifiers⟩ _ :=
      .intro (Text.digits_takeWhile text) hsidesText hchoiceText hmodifiersText
    -- what was taken and what was left make up the text
    rw [← hchoice, ← eq_markText_append, ← hd, List.takeWhile_append_dropWhile] at hwrites
    exact hwrites
  · cases h

/-- **The recognizer finds the notation that a text writes**, and none in other texts. -/
theorem ofText?_eq_some_iff {written : Notation} {text : List Char} :
    ofText? text = some written ↔ Writes written text :=
  ⟨writes_of_ofText?, ofText?_of_writes⟩

/-- A text writes one notation at most. -/
theorem Writes.unique {written other : Notation} {text : List Char} (h : Writes written text)
    (h' : Writes other text) : written = other := by
  have hother := ofText?_of_writes h'
  rw [ofText?_of_writes h] at hother
  exact Option.some.inj hother

/-- Behind its first digits stands the letter `d`. -/
theorem Writes.marked {written : Notation} {text : List Char} (h : Writes written text) :
    Text.Marked ['d'] text := by
  cases h with
  | intro hamount => exact .run hamount List.mem_cons_self (by decide)

end Lots.Roll.Notation
