import Lots.Error
import Lots.Proofs.Interval.Grammar
import Lots.Proofs.Options.Grammar
import Lots.Proofs.Roll.Grammar
import Mathlib.Algebra.Group.Nat.Defs

/-!
# Lots — numbers that are refused

A run of digits beyond the limit is not read, and a sum of modifiers that needs more digits
than the limit is not shown. Where options or expressions are refused for a number of digits,
their text holds such a number.

* **`Refused`** — what a text holds that is refused so: a run of digits (`DigitRun`), or the
  modifiers of a roll.
* **`Options.refused_of_parse`**, **`Expr.refused_of_parse`** — a conversion that was refused
  points at one of these in the text that was read.
* **`Refused.length_lt`** — a text within the limit itself holds neither. For the modifiers
  this is so because a sum has no more digits than its terms together
  (`natAbs_modifierSum_lt`).
-/

namespace Lots

/-! ## Runs of digits -/

namespace Text

/-- Digits that follow each other in a text. -/
structure DigitRun (digits text : List Char) : Prop where
  within : digits <:+: text
  digit : Digits digits

theorem DigitRun.self {digits : List Char} (h : Digits digits) : DigitRun digits digits :=
  ⟨List.infix_rfl, h⟩

theorem DigitRun.mono {digits s t : List Char} (h : DigitRun digits s) (hs : s <:+: t) :
    DigitRun digits t :=
  ⟨h.within.trans hs, h.digit⟩

theorem DigitRun.of_suffix {digits s t : List Char} (h : DigitRun digits s) (hs : s <:+ t) :
    DigitRun digits t :=
  h.mono hs.isInfix

theorem isBlank_of_isDigit {c : Char} (h : c.isDigit = true) : isBlank c = false := by
  have hrange : 48 ≤ c.toNat ∧ c.toNat ≤ 57 := by
    simpa [Char.isDigit, UInt32.le_iff_toNat_le] using h
  simp only [isBlank]
  generalize c.toNat = n at hrange
  grind

end Text

open Text (DigitRun)

namespace Numeral

/-- These digits are not read, for this cause. -/
def Unread (digits : List Char) (cause : TooLong) : Prop :=
  digitLimit < digits.length ∧ cause = .reading digits.length

theorem read_eq_error_iff {digits : List Char} {cause : TooLong} :
    read digits = .error cause ↔ Unread digits cause := by
  unfold read Unread
  split
  · next hle => simp [Nat.not_lt.mpr hle]
  · next hgt => simp [Nat.not_le.mp hgt, eq_comm]

/-- Few digits are read. -/
theorem read_of_length_le {digits : List Char} (h : digits.length ≤ digitLimit) :
    read digits = .ok (value digits) :=
  if_pos h

theorem readSigned_of_length_le {sign : Sign} {digits : List Char}
    (h : digits.length ≤ digitLimit) :
    readSigned sign digits = .ok (sign.apply (value digits)) := by
  rw [readSigned, read_of_length_le h]
  rfl

theorem readSigned_eq_error_iff {sign : Sign} {digits : List Char} {cause : TooLong} :
    readSigned sign digits = .error cause ↔ Unread digits cause := by
  rw [← read_eq_error_iff, readSigned]
  cases read digits <;> simp [Except.map]

theorem write_eq_error_iff {z : Int} {cause : TooLong} :
    write z = .error cause ↔ digitLimit < (text z.natAbs).length ∧ cause = .writing := by
  unfold write
  split
  · next hle => simp [Nat.not_lt.mpr hle]
  · next hgt => simp [Nat.not_le.mp hgt, eq_comm]

/-- The least number that has too many digits. -/
theorem lt_length_text_pow : digitLimit < (text (10 ^ digitLimit)).length := by
  apply Nat.not_le.mp
  intro hle
  exact absurd ((Nat.length_toDigits_le_iff (by decide) (by decide)).mp hle) (Nat.lt_irrefl _)

/-- Numbers in the ranges of amounts, counts, modifiers and bounds are far below it. -/
theorem ten_digits_le_pow : 10 ^ 10 ≤ 10 ^ digitLimit :=
  Nat.pow_le_pow_right (by decide) (by decide)

/-- So they have few digits. -/
theorem length_text_le_of_lt {n : Nat} (h : n < 10 ^ 10) : (text n).length ≤ digitLimit :=
  (Nat.length_toDigits_le_iff (by decide) (by decide)).mpr (Nat.lt_of_lt_of_le h ten_digits_le_pow)

theorem read_text_of_lt {n : Nat} (h : n < 10 ^ 10) : read (text n) = .ok n :=
  read_text (length_text_le_of_lt h)

end Numeral

open Numeral (TooLong Unread digitLimit)

/-- Computations in a row fail at one of them. -/
theorem bind_eq_error_iff {ε α β : Type} {x : Except ε α} {next : α → Except ε β} {e : ε} :
    x >>= next = .error e ↔ x = .error e ∨ ∃ a, x = .ok a ∧ next a = .error e := by
  cases x <;> simp [bind, Except.bind]

/-- They give a result if each of them does. -/
theorem bind_eq_ok_iff {ε α β : Type} {x : Except ε α} {next : α → Except ε β} {b : β} :
    x >>= next = .ok b ↔ ∃ a, x = .ok a ∧ next a = .ok b := by
  cases x <;> simp [bind, Except.bind]

theorem throw_bind {ε α β : Type} {e : ε} {next : α → Except ε β} :
    (throw e >>= next : Except ε β) = throw e := rfl

/-! ## Dice notation -/

namespace Roll.Notation

/-- The runs of digits that are written, from left to right. -/
def numbers (written : Notation) : List (List Char) :=
  written.amount :: written.sides.toList ++ written.choice.toList.map Prod.snd ++
    written.modifiers.map Prod.snd

theorem SidesText.digitRun {sides : Option (List Char)} {text : List Char}
    (h : SidesText sides text) : ∀ digits ∈ sides, DigitRun digits text := by
  cases h with
  | percent => nofun
  | number hdigits =>
    rintro digits ⟨⟩
    exact .self hdigits

theorem ChoiceText.digitRun {choice : Option ((Action × Side) × List Char)} {text : List Char}
    (h : ChoiceText choice text) : ∀ chosen ∈ choice, DigitRun chosen.2 text := by
  cases h with
  | none => nofun
  | some hkind hdigits =>
    rintro chosen ⟨⟩
    exact (DigitRun.self hdigits).of_suffix (List.suffix_append _ _)

theorem ModifiersText.digitRun {modifiers : List (Numeral.Sign × List Char)} {text : List Char}
    (h : ModifiersText modifiers text) : ∀ modifier ∈ modifiers, DigitRun modifier.2 text := by
  induction h with
  | nil => nofun
  | @cons sign digits text modifiers hdigits hne hrest ih =>
    intro modifier hmem
    rcases List.mem_cons.mp hmem with rfl | hmem
    · exact (DigitRun.self hdigits).mono ⟨[sign.toChar], text, rfl⟩
    · exact (ih modifier hmem).of_suffix ⟨sign.toChar :: digits, rfl⟩

theorem ModifiersText.length_le {modifiers : List (Numeral.Sign × List Char)} {text : List Char}
    (h : ModifiersText modifiers text) : (modifiers.flatMap Prod.snd).length ≤ text.length := by
  induction h with
  | nil => exact Nat.le_refl _
  | cons hdigits hne hrest ih =>
    simp only [List.flatMap_cons, List.length_append, List.length_cons]
    omega

/-- The numbers of a notation stand in the text that writes it. -/
theorem Writes.digitRun {written : Notation} {text : List Char} (h : Writes written text) :
    ∀ digits ∈ written.numbers, DigitRun digits text := by
  cases h with
  | @intro amount sidesText choiceText modifiersText sides exploding choice modifiers hamount
      hsides hchoice hmodifiers =>
    intro digits hdigits
    simp only [numbers, List.mem_append, List.mem_cons, Option.mem_toList, List.mem_map,
      Prod.exists, exists_eq_right] at hdigits
    rcases hdigits with ((rfl | hmem) | ⟨action, side, hmem⟩) | ⟨sign, hmem⟩
    · exact (DigitRun.self hamount).mono ⟨[], _, rfl⟩
    · exact (hsides.digitRun digits hmem).mono
        ⟨amount ++ ['d'], markText exploding ++ (choiceText ++ modifiersText), by simp⟩
    · exact (hchoice.digitRun ((action, side), digits) hmem).mono
        ⟨amount ++ 'd' :: (sidesText ++ markText exploding), modifiersText, by simp⟩
    · exact (hmodifiers.digitRun (sign, digits) hmem).of_suffix
        ⟨amount ++ 'd' :: (sidesText ++ (markText exploding ++ choiceText)), by simp⟩

theorem Writes.length_modifiers_le {written : Notation} {text : List Char}
    (h : Writes written text) : (written.modifiers.flatMap Prod.snd).length ≤ text.length := by
  cases h with
  | intro hamount hsides hchoice hmodifiers =>
    have hlength := hmodifiers.length_le
    simp only [List.length_append, List.length_cons]
    omega

theorem unread_of_countValue {count : Count} {digits : List Char} {cause : TooLong}
    (h : countValue count digits = .error (.tooLong cause)) : Unread digits cause := by
  unfold countValue at h
  split at h
  · next refused hread =>
    cases h
    exact Numeral.read_eq_error_iff.mp hread
  · split at h
    · cases h
    · split at h <;> cases h

theorem unread_of_optionalCountValue {count : Count} {digits : List Char} {cause : TooLong}
    (h : optionalCountValue count digits = .error (.tooLong cause)) : Unread digits cause := by
  unfold optionalCountValue at h
  split at h
  · cases h
  · exact unread_of_countValue h

theorem unread_of_sidesValue {sides : Option (List Char)} {cause : TooLong}
    (h : sidesValue sides = .error (.tooLong cause)) : ∃ digits ∈ sides, Unread digits cause := by
  cases sides with
  | none => cases h
  | some digits => exact ⟨digits, rfl, unread_of_countValue h⟩

theorem unread_of_choiceValue {choice : Option ((Action × Side) × List Char)} {cause : TooLong}
    (h : choiceValue choice = .error (.tooLong cause)) :
    ∃ written ∈ choice, Unread written.2 cause := by
  cases choice with
  | none => cases h
  | some written =>
    obtain ⟨⟨action, side⟩, digits⟩ := written
    cases hcount : optionalCountValue .chosen digits with
    | ok amount => simp [choiceValue, hcount, Except.map] at h
    | error error =>
      simp only [choiceValue, hcount, Except.map] at h
      cases h
      exact ⟨_, rfl, unread_of_optionalCountValue hcount⟩

/-- Adding modifiers up fails only at one that is not read. -/
theorem unread_of_modifierSum {modifiers : List (Numeral.Sign × List Char)} {error : Error}
    (h : modifierSum modifiers = .error error) :
    ∃ modifier ∈ modifiers, ∃ cause, error = .tooLong cause ∧ Unread modifier.2 cause := by
  induction modifiers with
  | nil => cases h
  | cons first rest ih =>
    obtain ⟨sign, digits⟩ := first
    cases hread : Numeral.readSigned sign digits with
    | error cause =>
      simp only [modifierSum, hread] at h
      cases h
      exact ⟨_, List.mem_cons_self, cause, rfl, Numeral.readSigned_eq_error_iff.mp hread⟩
    | ok z =>
      cases hsum : modifierSum rest with
      | ok sum => simp [modifierSum, hread, hsum, Except.map] at h
      | error error' =>
        simp only [modifierSum, hread, hsum, Except.map] at h
        cases h
        obtain ⟨modifier, hmem, hunread⟩ := ih hsum
        exact ⟨modifier, List.mem_cons_of_mem _ hmem, hunread⟩

/-- The sum of the modifiers has too many digits to be shown. -/
def Unwritten (written : Notation) (cause : TooLong) : Prop :=
  cause = .writing ∧
    ∃ sum, modifierSum written.modifiers = .ok sum ∧
      digitLimit < (Numeral.text sum.natAbs).length

theorem refused_of_modifierValue {written : Notation} {cause : TooLong}
    (h : modifierValue written.modifiers = .error (.tooLong cause)) :
    (∃ modifier ∈ written.modifiers, Unread modifier.2 cause) ∨ written.Unwritten cause := by
  rcases bind_eq_error_iff.mp h with hsum | ⟨sum, hsum, hrange⟩
  · obtain ⟨modifier, hmem, cause', herror, hunread⟩ := unread_of_modifierSum hsum
    cases herror
    exact .inl ⟨modifier, hmem, hunread⟩
  · right
    split at hrange
    · cases hrange
    · split at hrange
      · cases hrange
      · next refused hwrite =>
        cases hrange
        obtain ⟨hlong, hcause⟩ := Numeral.write_eq_error_iff.mp hwrite
        exact ⟨hcause, sum, hsum, hlong⟩

/-- A sum that is too long to be shown is out of range, so the error would have to show it. -/
theorem modifierValue_of_unwritten {written : Notation} {cause : TooLong}
    (h : written.Unwritten cause) :
    modifierValue written.modifiers = .error (.tooLong .writing) := by
  obtain ⟨-, sum, hsum, hlong⟩ := h
  have hpow : 10 ^ digitLimit ≤ sum.natAbs := by
    apply Nat.not_lt.mp
    intro hlt
    exact absurd ((Nat.length_toDigits_le_iff (by decide) (by decide)).mpr hlt)
      (Nat.not_le.mpr hlong)
  have hbig : 10 ^ 10 ≤ sum.natAbs := Nat.le_trans Numeral.ten_digits_le_pow hpow
  have hrange : ¬ (minModifier ≤ sum ∧ sum ≤ maxModifier) := by
    unfold minModifier maxModifier
    omega
  have hwrite : Numeral.write sum = .error .writing :=
    Numeral.write_eq_error_iff.mpr ⟨hlong, rfl⟩
  rw [modifierValue, hsum]
  simp only [bind, Except.bind]
  rw [if_neg hrange, hwrite]
  rfl

/-- A roll is refused for a number of digits only at a number that is written in it, or at
the sum of its modifiers. -/
theorem refused_of_value {written : Notation} {cause : TooLong}
    (h : written.value = .error (.tooLong cause)) :
    (∃ digits ∈ written.numbers, Unread digits cause) ∨ written.Unwritten cause := by
  rcases bind_eq_error_iff.mp h with hamount | ⟨amount, -, h⟩
  · exact .inl ⟨_, by simp [numbers], unread_of_optionalCountValue hamount⟩
  rcases bind_eq_error_iff.mp h with hsides | ⟨sides, -, h⟩
  · obtain ⟨digits, hmem, hunread⟩ := unread_of_sidesValue hsides
    exact .inl ⟨digits, by simp [numbers, Option.mem_def.mp hmem], hunread⟩
  rcases bind_eq_error_iff.mp h with hchoice | ⟨choice, -, h⟩
  · obtain ⟨chosen, hmem, hunread⟩ := unread_of_choiceValue hchoice
    exact .inl ⟨chosen.2, by simp [numbers, Option.mem_def.mp hmem], hunread⟩
  rcases bind_eq_error_iff.mp h with hmodifier | ⟨modifier, -, h⟩
  · rcases refused_of_modifierValue hmodifier with ⟨modifier, hmem, hunread⟩ | hunwritten
    · refine .inl ⟨modifier.2, ?_, hunread⟩
      exact List.mem_append_right _ (List.mem_map_of_mem hmem)
    · exact .inr hunwritten
  · cases h

end Roll.Notation

/-! ## Interval notation -/

namespace Interval

theorem NumberText.WritesInt.digitRun {n : NumberText} {text : List Char} (h : n.WritesInt text) :
    DigitRun n.whole text := by
  cases h with
  | intro hwhole => exact (DigitRun.self hwhole).of_suffix (List.suffix_append _ _)

theorem NumberText.Writes.digitRun {n : NumberText} {text : List Char} (h : n.Writes text) :
    DigitRun n.whole text := by
  cases h with
  | whole h => exact h.digitRun
  | @point sign whole fraction hwhole =>
    exact (DigitRun.self hwhole).mono ⟨signText sign, '.' :: fraction, by simp⟩

theorem NumberText.unread_of_intValue {which : End} {n : NumberText} {cause : TooLong}
    (h : n.intValue which = .error (.tooLong cause)) : Unread n.whole cause := by
  unfold intValue at h
  split at h
  · next refused hread =>
    cases h
    exact Numeral.readSigned_eq_error_iff.mp hread
  · split at h <;> cases h

theorem NumberText.floatValue_ne_tooLong {which : End} {n : NumberText} {cause : TooLong} :
    n.floatValue which ≠ .error (.tooLong cause) := by
  unfold floatValue
  dsimp only
  split <;> nofun

namespace Notation

/-- The runs of digits that are read as integers, from left to right. -/
def integers : Notation → List (List Char)
  | .bare start stop _ => [start.whole, stop.whole]
  | .bracket _ start between stop _ =>
    if isFloat start between stop then [] else [start.whole, stop.whole]

/-- The integers of a notation stand in the text that writes it. -/
theorem Writes.digitRun {written : Notation} {text : List Char} (h : Writes written text) :
    ∀ digits ∈ written.integers, DigitRun digits text := by
  intro digits hdigits
  cases h with
  | @bare start stop inclusive s t hstart hstop =>
    simp only [integers, List.mem_cons, List.not_mem_nil, or_false] at hdigits
    rcases hdigits with rfl | rfl
    · exact hstart.digitRun.mono (List.prefix_append _ _).isInfix
    · exact hstop.digitRun.of_suffix ⟨s ++ betweenText (dotsBetween inclusive), by simp⟩
  | @bracket start stop low high between s t gap₀ gap₁ gap₂ gap₃ gap₄ gap₅ hstart hstop =>
    simp only [integers] at hdigits
    split at hdigits
    · cases hdigits
    simp only [List.mem_cons, List.not_mem_nil, or_false] at hdigits
    rcases hdigits with rfl | rfl
    · exact hstart.digitRun.mono ⟨gap₀ ++ openChar low :: gap₁,
        gap₂ ++ (betweenText between ++ (gap₃ ++ (t ++ (gap₄ ++ closeChar high :: gap₅)))), by simp⟩
    · exact hstop.digitRun.mono
        ⟨gap₀ ++ openChar low :: (gap₁ ++ (s ++ (gap₂ ++ (betweenText between ++ gap₃)))),
          gap₄ ++ closeChar high :: gap₅, by simp⟩

theorem build_ne_tooLong {start stop : Int} {lowIncluded highIncluded : Bool} {cause : TooLong} :
    IntRange.build start stop lowIncluded highIncluded ≠ .error (.tooLong cause) := by
  unfold IntRange.build
  simp only [throw_bind]
  repeat' split
  all_goals nofun

theorem unread_of_intValue {start stop : NumberText} {lowIncluded highIncluded : Bool}
    {cause : TooLong}
    (h : intValue lowIncluded start stop highIncluded = .error (.tooLong cause)) :
    Unread start.whole cause ∨ Unread stop.whole cause := by
  rcases bind_eq_error_iff.mp h with hlow | ⟨low, -, h⟩
  · exact .inl (NumberText.unread_of_intValue hlow)
  rcases bind_eq_error_iff.mp h with hhigh | ⟨high, -, h⟩
  · exact .inr (NumberText.unread_of_intValue hhigh)
  rcases bind_eq_error_iff.mp h with hrange | ⟨range, -, h⟩
  · exact absurd hrange build_ne_tooLong
  · cases h

theorem floatValue_ne_tooLong {start stop : NumberText} {lowIncluded highIncluded : Bool}
    {cause : TooLong} :
    floatValue lowIncluded start stop highIncluded ≠ .error (.tooLong cause) := by
  intro h
  rcases bind_eq_error_iff.mp h with hlow | ⟨low, -, h⟩
  · exact NumberText.floatValue_ne_tooLong hlow
  rcases bind_eq_error_iff.mp h with hhigh | ⟨high, -, h⟩
  · exact NumberText.floatValue_ne_tooLong hhigh
  simp only [throw_bind] at h
  split at h
  · cases h
  split at h
  · cases h
  · cases h

/-- An interval is refused for a number of digits only at an end that is read as an integer. -/
theorem unread_of_value {written : Notation} {cause : TooLong}
    (h : written.value = .error (.tooLong cause)) :
    ∃ digits ∈ written.integers, Unread digits cause := by
  have hints : ∀ {start stop : NumberText} {lowIncluded highIncluded : Bool},
      intValue lowIncluded start stop highIncluded = .error (.tooLong cause) →
      ∃ digits ∈ [start.whole, stop.whole], Unread digits cause := by
    intro start stop lowIncluded highIncluded h
    rcases unread_of_intValue h with hstart | hstop
    · exact ⟨_, by simp, hstart⟩
    · exact ⟨_, by simp, hstop⟩
  cases written with
  | bare start stop inclusive => exact hints h
  | bracket lowIncluded start between stop highIncluded =>
    simp only [value] at h
    simp only [integers]
    split at h
    · exact absurd h floatValue_ne_tooLong
    · next hint =>
      rw [if_neg hint]
      exact hints h

end Notation

end Interval

/-! ## Texts that are refused -/

/-- What a text holds if it is refused for a number of digits. -/
inductive Refused (text : List Char) (cause : TooLong) : Prop
  /-- A run of digits that is not read. -/
  | reading (digits : List Char) (run : DigitRun digits text) (unread : Unread digits cause)
  /-- Modifiers of a roll, with a sum that is not shown. -/
  | writing (written : Roll.Notation) (hwritten : Roll.Notation.ofText? text = some written)
      (unwritten : written.Unwritten cause)

namespace Options

theorem AmountText.Writes.digitRun {digits token : List Char}
    (h : (AmountText.digits digits).Writes token) : DigitRun digits token := by
  cases h with
  | zero => exact .self (by decide)
  | positive hdigits hzero => exact .self hdigits

theorem Notation.digitRun_ofText? {text digits : List Char} {written : Notation}
    (h : ofText? text = some written) (hamount : written.amount = some (.digits digits)) :
    DigitRun digits text := by
  unfold ofText? at h
  cases htake : takeAmount (text.dropWhile isSpace) with
  | mk amount rest =>
    rw [htake] at h
    obtain ⟨flags, -, rfl⟩ := Option.map_eq_some_iff.mp h
    cases hamount
    obtain ⟨token, hwrites, htext⟩ := exists_amountText htake
    have hprefix : token <+: text.dropWhile isSpace := ⟨rest, htext.symm⟩
    exact (hwrites.digitRun.mono hprefix.isInfix).of_suffix (List.dropWhile_suffix _)

theorem Notation.unread_of_value {written : Notation} {cause : TooLong}
    (h : written.value = .error (.tooLong cause)) :
    ∃ digits, written.amount = some (.digits digits) ∧ Unread digits cause := by
  rcases bind_eq_error_iff.mp h with hamount | ⟨amount, -, h⟩
  · unfold amountValue at hamount
    split at hamount
    · cases hamount
    · cases hamount
    · next digits hdigits =>
      split at hamount
      · next refused hread =>
        cases hamount
        exact ⟨digits, hdigits, Numeral.read_eq_error_iff.mp hread⟩
      · split at hamount <;> cases hamount
  · -- the flags are refused for other reasons
    simp only [throw_bind] at h
    split at h
    · cases h
    split at h
    · cases h
    · cases h

/-- Options are refused for a number of digits only at their amount, which is not read. -/
theorem unread_of_parse {text : List Char} {cause : TooLong}
    (h : parse text = .error (.tooLong cause)) :
    ∃ digits, DigitRun digits text ∧ Unread digits cause := by
  unfold parse at h
  dsimp only at h
  split at h
  · cases h
  split at h
  · cases h
  split at h
  · next written hwritten =>
    obtain ⟨digits, hamount, hunread⟩ := Notation.unread_of_value h
    have hrun := Notation.digitRun_ofText? hwritten hamount
    exact ⟨digits, hrun.mono (Text.strip_isInfix text), hunread⟩
  · cases h

/-- **Options are refused for a number of digits** that stands in their text. -/
theorem refused_of_parse {text : List Char} {cause : TooLong}
    (h : parse text = .error (.tooLong cause)) : Refused text cause := by
  obtain ⟨digits, hrun, hunread⟩ := unread_of_parse h
  exact .reading digits hrun hunread

/-- An amount is refused for its length alone, whatever its value would be. -/
theorem parse_long_amount {digits : List Char} (hdigits : ∀ c ∈ digits, c.isDigit = true)
    (hzero : '0' ∉ digits.head?) (hlong : digitLimit < digits.length) :
    parse digits = .error (.tooLong (.reading digits.length)) := by
  have hstrip : Text.strip digits = digits := by
    apply Text.strip_eq_self_iff.mpr
    constructor
    · intro c hc
      exact Text.isBlank_of_isDigit (hdigits c (List.mem_of_head? hc))
    · intro c hc
      exact Text.isBlank_of_isDigit (hdigits c (List.mem_of_getLast? hc))
  -- the names of presets are shorter
  have hne : ∀ name : List Char, name.length ≤ digitLimit → digits ≠ name := by
    rintro name hname rfl
    exact absurd hlong (Nat.not_lt.mpr hname)
  have hpreset : preset? digits = none := by
    unfold preset?
    rw [if_neg (hne _ (by decide)), if_neg (hne _ (by decide)), if_neg (hne _ (by decide))]
  obtain ⟨c, rest, rfl⟩ := List.exists_cons_of_ne_nil (hne [] (by decide))
  have hne : c ≠ '0' := fun h => hzero (h ▸ rfl)
  have hwrites := Notation.Writes.amount (.positive hdigits hne) .nil
  rw [List.append_nil] at hwrites
  have hwritten := Notation.ofText?_of_writes hwrites
  have hread := Numeral.read_eq_error_iff.mpr ⟨hlong, rfl⟩
  have hvalue : Notation.value ⟨some (.digits (c :: rest)), []⟩ =
      .error (.tooLong (.reading (c :: rest).length)) := by
    simp only [Notation.value, Notation.amountValue, hread]
    rfl
  simp only [parse, hstrip, hpreset, hwritten, hvalue]
  rfl

end Options

/-- **An expression is refused for a number of digits** only at a number written in it, or at
the sum of the modifiers of a roll. -/
theorem Expr.refused_of_parse {text : List Char} {error : Expr.Error} {cause : TooLong}
    (h : Expr.parse text = .error error) (hcause : error.tooLong? = some cause) :
    Refused text cause := by
  unfold Expr.parse at h
  split at h
  · cases h
  · cases h
  · next refused _ hroll =>
    cases h
    obtain ⟨written, hwritten, hvalue⟩ := Option.map_eq_some_iff.mp hroll
    cases refused with
    | tooLong refused =>
      cases hcause
      rcases Roll.Notation.refused_of_value hvalue with ⟨digits, hmem, hunread⟩ | hunwritten
      · have hwrites := Roll.Notation.writes_of_ofText? hwritten
        exact .reading digits (hwrites.digitRun digits hmem) hunread
      · exact .writing written hwritten hunwritten
    | tooLarge | zero | modifier => cases hcause
  · cases h
  · next refused _ _ hinterval =>
    cases h
    obtain ⟨written, hwritten, hvalue⟩ := Option.map_eq_some_iff.mp hinterval
    cases refused with
    | tooLong refused =>
      cases hcause
      obtain ⟨digits, hmem, hunread⟩ := Interval.Notation.unread_of_value hvalue
      have hwrites := Interval.Notation.writes_of_ofText? hwritten
      exact .reading digits (hwrites.digitRun digits hmem) hunread
    | doesNotFit | tooBig | empty | tooWide => cases hcause
  · cases h

/-! ## Short texts -/

namespace Numeral

theorem value_lt_pow {digits : List Char} (h : ∀ c ∈ digits, c.isDigit = true) :
    value digits < 10 ^ digits.length := by
  unfold value
  induction digits with
  | nil => decide
  | cons c rest ih =>
    obtain ⟨hc, hrest⟩ := List.forall_mem_cons.mp h
    have hrest := ih hrest
    have hdigit : c.toNat - '0'.toNat ≤ 9 := by
      simp only [Char.isDigit, Bool.and_eq_true, decide_eq_true_eq, ge_iff_le,
        UInt32.le_iff_toNat_le] at hc
      exact Nat.sub_le_of_le_add hc.2
    have hfirst := Nat.mul_le_mul_left (10 ^ rest.length) hdigit
    rw [Nat.ofDigitChars_cons, Nat.ofDigitChars_eq_ofDigitChars_zero, Nat.mul_zero, Nat.zero_add,
      List.length_cons, Nat.pow_succ]
    omega

theorem natAbs_readSigned_lt {sign : Sign} {digits : List Char} {z : Int}
    (h : readSigned sign digits = .ok z) (hdigits : ∀ c ∈ digits, c.isDigit = true) :
    z.natAbs < 10 ^ digits.length := by
  have hvalue := value_lt_pow hdigits
  unfold readSigned read at h
  split at h
  · cases h
    cases sign with
    | plus => exact hvalue
    | minus => simpa [Sign.apply] using hvalue
  · cases h

/-- Numbers below two powers have a sum below their product. -/
theorem add_lt_pow {m n a b : Nat} (hm : m < 10 ^ a) (hn : n < 10 ^ b) : m + n < 10 ^ (a + b) := by
  calc m + n < (m + 1) * (n + 1) := by
        rw [Nat.add_mul, Nat.mul_add]
        omega
    _ ≤ 10 ^ a * 10 ^ b := Nat.mul_le_mul hm hn
    _ = 10 ^ (a + b) := (Nat.pow_add 10 a b).symm

/-- A sum has no more digits than its terms together. -/
theorem natAbs_modifierSum_lt {modifiers : List (Sign × List Char)} {sum : Int}
    (h : Roll.Notation.modifierSum modifiers = .ok sum)
    (hdigits : ∀ modifier ∈ modifiers, ∀ c ∈ modifier.2, c.isDigit = true) :
    sum.natAbs < 10 ^ (modifiers.flatMap Prod.snd).length := by
  induction modifiers generalizing sum with
  | nil =>
    cases h
    decide
  | cons first rest ih =>
    obtain ⟨sign, digits⟩ := first
    obtain ⟨hfirst, hrest⟩ := List.forall_mem_cons.mp hdigits
    cases hread : readSigned sign digits with
    | error cause =>
      simp only [Roll.Notation.modifierSum, hread] at h
      cases h
    | ok z =>
      cases hsum : Roll.Notation.modifierSum rest with
      | error error => simp [Roll.Notation.modifierSum, hread, hsum, Except.map] at h
      | ok sum =>
        simp only [Roll.Notation.modifierSum, hread, hsum, Except.map] at h
        cases h
        have hz : z.natAbs < 10 ^ digits.length := natAbs_readSigned_lt hread hfirst
        rw [List.flatMap_cons, List.length_append]
        exact Nat.lt_of_le_of_lt (Int.natAbs_add_le z sum) (add_lt_pow hz (ih hsum hrest))

end Numeral

/-- **A text that is refused for a number of digits** has more characters than the limit. -/
theorem Refused.length_lt {text : List Char} {cause : TooLong} (h : Refused text cause) :
    digitLimit < text.length := by
  cases h with
  | reading digits run unread => exact Nat.lt_of_lt_of_le unread.1 run.within.length_le
  | writing written hwritten unwritten =>
    obtain ⟨-, sum, hsum, hlong⟩ := unwritten
    have hwrites := Roll.Notation.writes_of_ofText? hwritten
    have hsmall : sum.natAbs < 10 ^ (written.modifiers.flatMap Prod.snd).length := by
      apply Numeral.natAbs_modifierSum_lt hsum
      intro modifier hmem
      exact (hwrites.digitRun _ (List.mem_append_right _ (List.mem_map_of_mem hmem))).digit
    -- a sum with so many digits is not below the power that bounds it
    have hpow : ¬ sum.natAbs < 10 ^ digitLimit := fun hlt =>
      absurd ((Nat.length_toDigits_le_iff (by decide) (by decide)).mpr hlt) (Nat.not_le.mpr hlong)
    have hexponent := (Nat.pow_lt_pow_iff_right (by decide)).mp
      (Nat.lt_of_le_of_lt (Nat.not_lt.mp hpow) hsmall)
    exact Nat.lt_of_lt_of_le hexponent hwrites.length_modifiers_le

end Lots
