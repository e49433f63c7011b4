import Lots.Proofs.Numeral.Refusal

/-!
# Lots — the languages of expressions

Four languages give a text a meaning of its own: the keywords, dice notation, and the bare and
the bracket form of interval notation. Their texts are marked differently behind the digits that
they start with, so no text is in two of them. The recognizers may be tried in any order, and
what one of them refuses is no other's.

* **`Form.Has`** — a text is in a language; said by the grammars, not by the recognizers.
* **`Form.Has.unique`** — no text is in two languages (`Form.Has.marked` tells them apart).
* **`Form.has_iff_recognize`** — a recognizer finds something exactly in its language.
* **`parseIn_eq_parse`** — the recognizers in whatever order classify as `parse` does.
* **`classified`** — the contract of `parse` (`Classified`): in a language, its recognizer
  decides, and outside of all of them a text is plain. Where no integer is too long to be read,
  an error is one of the query, but for a sum of modifiers that is too long to be shown.
-/

namespace Lots.Expr

open Text (Marked)
open Numeral (digitLimit)

/-! ## The languages -/

/-- The words that stand for an expression. -/
def keywords : List (List Char × Expr) :=
  [("coin".toList, .coin), ("color".toList, .color), ("uuid".toList, .uuid)]

/-- A language in which texts have a meaning of their own. -/
inductive Form where
  | keyword
  | dice
  | bare
  | bracket
deriving DecidableEq, Repr

namespace Form

/-- The text is in the language. -/
def Has : Form → List Char → Prop
  | keyword, s => ∃ expr, (s, expr) ∈ keywords
  | dice, s => ∃ written, Roll.Notation.Writes written s
  | bare, s => ∃ start stop inclusive,
      Interval.Notation.Writes (.bare start stop inclusive) s
  | bracket, s => ∃ lowIncluded start between stop highIncluded,
      Interval.Notation.Writes (.bracket lowIncluded start between stop highIncluded) s

/-- The text is in this language; or it is in none, and plain. -/
def Holds : Option Form → List Char → Prop
  | some form, s => form.Has s
  | none, s => ∀ form : Form, ¬ form.Has s

/-! ### Texts are in one language at most -/

/-- What stands behind the first digits of the texts of a language. -/
def marks : Form → List Char
  | keyword => ['c', 'u']
  | dice => ['d']
  | bare => ['+', '-', '.']
  | bracket => ['[', '(', ' ', '\t']

theorem marks_disjoint {form other : Form} (h : form ≠ other) :
    form.marks.any (· ∈ other.marks) = false := by
  cases form <;> cases other
  all_goals first | exact absurd rfl h | decide

theorem Has.marked {form : Form} {text : List Char} (h : form.Has text) :
    Marked form.marks text := by
  cases form with
  | keyword =>
    obtain ⟨expr, hmem⟩ := h
    simp only [keywords, List.mem_cons, Prod.mk.injEq, List.not_mem_nil, or_false] at hmem
    rcases hmem with ⟨rfl, -⟩ | ⟨rfl, -⟩ | ⟨rfl, -⟩
    · exact ⟨'c', by decide, by decide⟩
    · exact ⟨'c', by decide, by decide⟩
    · exact ⟨'u', by decide, by decide⟩
  | dice =>
    obtain ⟨written, hwrites⟩ := h
    exact hwrites.marked
  | bare =>
    obtain ⟨start, stop, inclusive, hwrites⟩ := h
    exact hwrites.marked_bare
  | bracket =>
    obtain ⟨lowIncluded, start, between, stop, highIncluded, hwrites⟩ := h
    exact hwrites.marked_bracket

theorem Has.unique {form other : Form} {text : List Char} (h : form.Has text)
    (h' : other.Has text) : other = form := by
  rcases Decidable.em (form = other) with heq | hne
  · exact heq.symm
  · exact (h.marked.disjoint h'.marked (marks_disjoint hne)).elim

/-- Exactly one of the languages, or none, holds a text. -/
theorem exists_unique_holds (text : List Char) :
    ∃ form, Holds form text ∧ ∀ other, Holds other text → other = form := by
  rcases Classical.em (∃ form : Form, form.Has text) with ⟨form, hhas⟩ | hnone
  · refine ⟨some form, hhas, ?_⟩
    intro other hother
    cases other with
    | none => exact absurd hhas (hother form)
    | some other => exact congrArg some (hhas.unique hother)
  · have hplain : Holds none text := fun form hhas => hnone ⟨form, hhas⟩
    refine ⟨none, hplain, ?_⟩
    intro other hother
    cases other with
    | none => rfl
    | some other => exact absurd hother (hplain other)

end Form

/-! ## The recognizers -/

theorem keyword?_eq_some_iff {text : List Char} {expr : Expr} :
    keyword? text = some expr ↔ (text, expr) ∈ keywords := by
  unfold keyword?
  split
  · next h => subst h; simp [keywords, eq_comm]
  split
  · next h => subst h; simp [keywords, eq_comm]
  split
  · next h => subst h; simp [keywords, eq_comm]
  · next hcoin hcolor huuid => simp_all [keywords]

/-- What a roll, or the error in it, is as an expression. -/
def ofRoll (result : Except Roll.Error Roll) : Except Error Expr :=
  (result.map .dice).mapError .roll

/-- What an interval, or the error in it, is as an expression. -/
def ofInterval (result : Except Interval.Error Interval) : Except Error Expr :=
  (result.map .interval).mapError .interval

@[simp] theorem ofRoll_ok (roll : Roll) : ofRoll (.ok roll) = .ok (.dice roll) := rfl

@[simp] theorem ofRoll_error (cause : Roll.Error) : ofRoll (.error cause) = .error (.roll cause) :=
  rfl

@[simp] theorem ofInterval_ok (interval : Interval) :
    ofInterval (.ok interval) = .ok (.interval interval) := rfl

@[simp] theorem ofInterval_error (cause : Interval.Error) :
    ofInterval (.error cause) = .error (.interval cause) := rfl

/-- The recognizer of a language: nothing for a text outside of it. -/
def Form.recognize : Form → List Char → Option (Except Error Expr)
  | keyword, s => (keyword? s).map .ok
  | dice, s => (Roll.Notation.ofText? s).map (ofRoll ·.value)
  | bare, s => (Interval.Notation.ofBare? s).map (ofInterval ·.value)
  | bracket, s => (Interval.Notation.ofBracket? s).map (ofInterval ·.value)

/-- Tries recognizers one after the other; a text that none of them takes is plain. -/
def parseIn (order : List Form) (text : List Char) : Except Error Expr :=
  (order.findSome? (·.recognize text)).getD (.ok (.text text))

theorem Form.has_iff_recognize {form : Form} {text : List Char} :
    form.Has text ↔ (form.recognize text).isSome = true := by
  cases form with
  | keyword => simp [Has, recognize, Option.isSome_iff_exists, keyword?_eq_some_iff]
  | dice => simp [Has, recognize, Option.isSome_iff_exists, Roll.Notation.ofText?_eq_some_iff]
  | bare =>
    simp only [recognize, Option.isSome_map, Option.isSome_iff_exists]
    constructor
    · rintro ⟨start, stop, inclusive, hwrites⟩
      exact ⟨_, Interval.Notation.ofBare?_of_writes hwrites⟩
    · rintro ⟨written, hwritten⟩
      obtain ⟨start, stop, inclusive, rfl, hwrites⟩ := Interval.Notation.exists_bare hwritten
      exact ⟨start, stop, inclusive, hwrites⟩
  | bracket =>
    simp only [recognize, Option.isSome_map, Option.isSome_iff_exists]
    constructor
    · rintro ⟨lowIncluded, start, between, stop, highIncluded, hwrites⟩
      exact ⟨_, Interval.Notation.ofBracket?_of_writes hwrites⟩
    · rintro ⟨written, hwritten⟩
      obtain ⟨lowIncluded, start, between, stop, highIncluded, rfl, hwrites⟩ :=
        Interval.Notation.exists_bracket hwritten
      exact ⟨lowIncluded, start, between, stop, highIncluded, hwrites⟩

theorem Form.has_of_recognize {form : Form} {text : List Char} {result : Except Error Expr}
    (h : form.recognize text = some result) : form.Has text :=
  has_iff_recognize.mpr (by rw [h]; rfl)

theorem Form.recognize_of_plain {text : List Char} (h : Holds none text) (form : Form) :
    form.recognize text = none := by
  cases hform : form.recognize text with
  | none => rfl
  | some result => exact absurd (has_of_recognize hform) (h form)

/-! ### In whatever order -/

/-- The text is read by the recognizer that takes it, wherever this stands in the order. -/
theorem parseIn_of_recognize {order : List Form} {form : Form} {text : List Char}
    {result : Except Error Expr} (hform : form ∈ order) (h : form.recognize text = some result) :
    parseIn order text = result := by
  cases hfind : order.findSome? (·.recognize text) with
  | none =>
    have hnone := List.findSome?_eq_none_iff.mp hfind form hform
    rw [h] at hnone
    cases hnone
  | some first =>
    -- no other language has the text, so the first recognizer that takes it is this one
    obtain ⟨other, -, hother⟩ := List.exists_of_findSome?_eq_some hfind
    obtain rfl := (Form.has_of_recognize h).unique (Form.has_of_recognize hother)
    rw [h] at hother
    rw [parseIn, hfind]
    exact (Option.some.inj hother).symm

theorem parseIn_of_plain {order : List Form} {text : List Char} (h : Form.Holds none text) :
    parseIn order text = .ok (.text text) := by
  have hnone : order.findSome? (·.recognize text) = none :=
    List.findSome?_eq_none_iff.mpr fun form _ => Form.recognize_of_plain h form
  rw [parseIn, hnone]
  rfl

/-- `parse` tries the recognizers in this order. -/
theorem parse_eq_parseIn (text : List Char) :
    parse text = parseIn [.keyword, .dice, .bare, .bracket] text := by
  simp only [parse, parseIn, Roll.parse?, Interval.parse?, Interval.Notation.ofText?,
    List.findSome?_cons, List.findSome?_nil, Form.recognize]
  cases keyword? text with
  | some expr => rfl
  | none =>
    cases Roll.Notation.ofText? text with
    | some written => cases hvalue : written.value <;> simp [hvalue]
    | none =>
      cases Interval.Notation.ofBare? text with
      | some written => cases hvalue : written.value <;> simp [hvalue]
      | none =>
        cases Interval.Notation.ofBracket? text with
        | some written => cases hvalue : written.value <;> simp [hvalue]
        | none => rfl

theorem mem_recognizers (form : Form) : form ∈ [Form.keyword, .dice, .bare, .bracket] := by
  cases form <;> decide

/-- Where all recognizers are tried, their order does not matter. -/
theorem parseIn_eq_parse {order : List Form} (horder : ∀ form, form ∈ order) (text : List Char) :
    parseIn order text = parse text := by
  rw [parse_eq_parseIn]
  obtain ⟨form, hform, -⟩ := Form.exists_unique_holds text
  cases form with
  | none => rw [parseIn_of_plain hform, parseIn_of_plain hform]
  | some form =>
    obtain ⟨result, hresult⟩ := Option.isSome_iff_exists.mp (Form.has_iff_recognize.mp hform)
    rw [parseIn_of_recognize (horder form) hresult,
      parseIn_of_recognize (mem_recognizers form) hresult]

/-! ## What a text means -/

theorem parse_of_mem_keywords {text : List Char} {expr : Expr} (h : (text, expr) ∈ keywords) :
    parse text = .ok expr := by
  rw [parse_eq_parseIn]
  apply parseIn_of_recognize (mem_recognizers .keyword)
  rw [Form.recognize, keyword?_eq_some_iff.mpr h]
  rfl

theorem parse_of_writes_roll {text : List Char} {written : Roll.Notation}
    (h : Roll.Notation.Writes written text) : parse text = ofRoll written.value := by
  rw [parse_eq_parseIn]
  apply parseIn_of_recognize (mem_recognizers .dice)
  rw [Form.recognize, Roll.Notation.ofText?_of_writes h]
  rfl

theorem parse_of_writes_interval {text : List Char} {written : Interval.Notation}
    (h : Interval.Notation.Writes written text) : parse text = ofInterval written.value := by
  rw [parse_eq_parseIn]
  cases written with
  | bare start stop inclusive =>
    apply parseIn_of_recognize (mem_recognizers .bare)
    rw [Form.recognize, Interval.Notation.ofBare?_of_writes h]
    rfl
  | bracket lowIncluded start between stop highIncluded =>
    apply parseIn_of_recognize (mem_recognizers .bracket)
    rw [Form.recognize, Interval.Notation.ofBracket?_of_writes h]
    rfl

theorem parse_of_plain {text : List Char} (h : Form.Holds none text) :
    parse text = .ok (.text text) := by
  rw [parse_eq_parseIn, parseIn_of_plain h]

/-- The notation in the text is refused, for the cause in the error. -/
inductive RefusedBy (text : List Char) : Error → Prop where
  | roll {written : Roll.Notation} {cause : Roll.Error}
      (hwrites : Roll.Notation.Writes written text) (hvalue : written.value = .error cause) :
      RefusedBy text (.roll cause)
  | interval {written : Interval.Notation} {cause : Interval.Error}
      (hwrites : Interval.Notation.Writes written text) (hvalue : written.value = .error cause) :
      RefusedBy text (.interval cause)

theorem refusedBy_of_roll {text : List Char} {written : Roll.Notation} {error : Error}
    (hwrites : Roll.Notation.Writes written text) (h : parse text = .error error) :
    RefusedBy text error := by
  rw [parse_of_writes_roll hwrites] at h
  cases hvalue : written.value with
  | ok roll =>
    rw [hvalue] at h
    cases h
  | error cause =>
    rw [hvalue] at h
    cases h
    exact .roll hwrites hvalue

theorem refusedBy_of_interval {text : List Char} {written : Interval.Notation} {error : Error}
    (hwrites : Interval.Notation.Writes written text) (h : parse text = .error error) :
    RefusedBy text error := by
  rw [parse_of_writes_interval hwrites] at h
  cases hvalue : written.value with
  | ok interval =>
    rw [hvalue] at h
    cases h
  | error cause =>
    rw [hvalue] at h
    cases h
    exact .interval hwrites hvalue

/-- A text is refused exactly if it is in a notation that refuses its values. -/
theorem parse_eq_error_iff {text : List Char} {error : Error} :
    parse text = .error error ↔ RefusedBy text error := by
  constructor
  · intro h
    obtain ⟨form, hform, -⟩ := Form.exists_unique_holds text
    cases form with
    | none =>
      rw [parse_of_plain hform] at h
      cases h
    | some form =>
      cases form with
      | keyword =>
        obtain ⟨expr, hmem⟩ := hform
        rw [parse_of_mem_keywords hmem] at h
        cases h
      | dice =>
        obtain ⟨written, hwrites⟩ := hform
        exact refusedBy_of_roll hwrites h
      | bare =>
        obtain ⟨start, stop, inclusive, hwrites⟩ := hform
        exact refusedBy_of_interval hwrites h
      | bracket =>
        obtain ⟨lowIncluded, start, between, stop, highIncluded, hwrites⟩ := hform
        exact refusedBy_of_interval hwrites h
  · intro h
    cases h with
    | roll hwrites hvalue => rw [parse_of_writes_roll hwrites, hvalue, ofRoll_error]
    | interval hwrites hvalue => rw [parse_of_writes_interval hwrites, hvalue, ofInterval_error]

/-! ## Errors of the query -/

/-- No number in the text is too long to be read as an integer. The numbers of an interval of
floating-point numbers are not read as integers. -/
structure ShortIntegers (text : List Char) : Prop where
  roll : ∀ written, Roll.Notation.Writes written text →
    ∀ digits ∈ written.numbers, digits.length ≤ digitLimit
  interval : ∀ written, Interval.Notation.Writes written text →
    ∀ digits ∈ written.integers, digits.length ≤ digitLimit

/-- A text within the limit has no number beyond it. -/
theorem shortIntegers_of_length_le {text : List Char} (h : text.length ≤ digitLimit) :
    ShortIntegers text where
  roll _ hwrites _ hmem := Nat.le_trans (hwrites.digitRun _ hmem).within.length_le h
  interval _ hwrites _ hmem := Nat.le_trans (hwrites.digitRun _ hmem).within.length_le h

/-- The integers of dice notation are those that it writes. -/
theorem shortIntegers_of_roll {text : List Char} {written : Roll.Notation}
    (hwrites : Roll.Notation.Writes written text)
    (h : ∀ digits ∈ written.numbers, digits.length ≤ digitLimit) : ShortIntegers text where
  roll other hother := by
    obtain rfl := hother.unique hwrites
    exact h
  interval other hother := by
    have hdice : Form.dice.Has text := ⟨written, hwrites⟩
    cases other with
    | bare =>
      have hbare : Form.bare.Has text := ⟨_, _, _, hother⟩
      cases hdice.unique hbare
    | bracket =>
      have hbracket : Form.bracket.Has text := ⟨_, _, _, _, _, hother⟩
      cases hdice.unique hbracket

/-- Modifiers are written in the text, and their sum is too long to be shown. -/
def OverlongSum (text : List Char) : Prop :=
  ∃ written, Roll.Notation.Writes written text ∧ written.Unwritten .writing

/-- Where all integers are read, only the sum of modifiers makes an error that is not one of
the query. -/
theorem isQuery_or_overlongSum {text : List Char} {error : Error} (hshort : ShortIntegers text)
    (h : parse text = .error error) :
    (Lots.Error.expression error).isQuery = true ∨
      error = .roll (.tooLong .writing) ∧ OverlongSum text := by
  cases parse_eq_error_iff.mp h with
  | @roll written cause hwrites hvalue =>
    cases cause with
    | tooLarge | zero | modifier => exact .inl rfl
    | tooLong cause =>
      rcases Roll.Notation.refused_of_value hvalue with ⟨digits, hmem, hlong, -⟩ | hunwritten
      · exact absurd hlong (Nat.not_lt.mpr (hshort.roll written hwrites digits hmem))
      · obtain rfl := hunwritten.1
        exact .inr ⟨rfl, written, hwrites, hunwritten⟩
  | @interval written cause hwrites hvalue =>
    cases cause with
    | doesNotFit | tooBig | empty | tooWide => exact .inl rfl
    | tooLong cause =>
      obtain ⟨digits, hmem, hlong, -⟩ := Interval.Notation.unread_of_value hvalue
      exact absurd hlong (Nat.not_lt.mpr (hshort.interval written hwrites digits hmem))

/-! ## The contract -/

/-- How a text is classified. -/
structure Classified (text : List Char) : Prop where
  /-- The languages, and what is in none of them, part all texts. -/
  form : ∃ form, Form.Holds form text ∧ ∀ other, Form.Holds other text → other = form
  /-- The order of the recognizers does not matter. -/
  order : ∀ order : List Form, (∀ form, form ∈ order) → parseIn order text = parse text
  keyword : ∀ expr, (text, expr) ∈ keywords → parse text = .ok expr
  /-- A roll is what its notation makes of it, refused or not. -/
  roll : ∀ written, Roll.Notation.Writes written text → parse text = ofRoll written.value
  interval : ∀ written, Interval.Notation.Writes written text →
    parse text = ofInterval written.value
  plain : Form.Holds none text → parse text = .ok (.text text)
  /-- Nothing else is refused. -/
  refused : ∀ error, parse text = .error error ↔ RefusedBy text error
  query : ShortIntegers text → ∀ error, parse text = .error error →
    (Lots.Error.expression error).isQuery = true ∨
      error = .roll (.tooLong .writing) ∧ OverlongSum text

/-- **Every text is classified**, by the one language that it is in. -/
theorem classified (text : List Char) : Classified text where
  form := Form.exists_unique_holds text
  order _ horder := parseIn_eq_parse horder text
  keyword _ hmem := parse_of_mem_keywords hmem
  roll _ hwrites := parse_of_writes_roll hwrites
  interval _ hwrites := parse_of_writes_interval hwrites
  plain hplain := parse_of_plain hplain
  refused _ := parse_eq_error_iff
  query hshort _ herror := isQuery_or_overlongSum hshort herror

/-- A die without sides is dice notation, so it is refused and no plain text; with so few digits
the error is one of the query. -/
theorem classified_die_without_sides :
    let text := ['d', '0']
    ShortIntegers text ∧ Form.Holds (some .dice) text ∧ ¬ Form.Holds none text ∧
      parse text = .error (.roll (.zero .sides)) ∧
      (Lots.Error.expression (.roll (.zero .sides))).isQuery = true := by
  intro text
  have hshort : ShortIntegers text := shortIntegers_of_length_le (by decide)
  have hwrites : Roll.Notation.Writes ⟨[], some ['0'], false, none, []⟩ text :=
    .intro (by decide) (.number (by decide) (by decide)) .none .nil
  have hdice : Form.Holds (some .dice) text := ⟨_, hwrites⟩
  have hrefused : parse text = .error (.roll (.zero .sides)) :=
    (classified text).roll _ hwrites
  refine ⟨hshort, hdice, fun hplain => hplain .dice hdice, hrefused, ?_⟩
  rcases (classified text).query hshort _ hrefused with hquery | ⟨hlong, -⟩
  · exact hquery
  · cases hlong

/-! ### A sum that is not shown -/

theorem value_nines (n : Nat) : Numeral.value (List.replicate n '9') + 1 = 10 ^ n := by
  unfold Numeral.value
  induction n with
  | zero => rfl
  | succ n ih =>
    rw [List.replicate_succ, Nat.ofDigitChars_cons, Nat.ofDigitChars_eq_ofDigitChars_zero,
      List.length_replicate, Nat.pow_succ]
    have hnine : '9'.toNat - '0'.toNat = 9 := by decide
    rw [hnine]
    omega

/-- A die, with the largest modifier that is read and one more. -/
def overlong : Roll.Notation where
  amount := []
  sides := some ['6']
  exploding := false
  choice := none
  modifiers := [(.plus, List.replicate digitLimit '9'), (.plus, ['1'])]

def overlongText : List Char :=
  'd' :: '6' :: '+' :: (List.replicate digitLimit '9' ++ ['+', '1'])

theorem writes_overlong : Roll.Notation.Writes overlong overlongText := by
  have hnines : Text.Digits (List.replicate digitLimit '9') := by
    intro c hc
    rw [List.eq_of_mem_replicate hc]
    rfl
  have hne : List.replicate digitLimit '9' ≠ [] := by
    rw [Ne, List.replicate_eq_nil_iff]
    decide
  have hone : Roll.Notation.ModifiersText [(.plus, ['1'])] ['+', '1'] :=
    .cons (by decide) (by decide) .nil
  exact .intro Text.digits_nil (.number (by decide) (by decide)) .none (.cons hnines hne hone)

theorem modifierSum_succ {digits : List Char} (h : digits.length ≤ digitLimit) :
    Roll.Notation.modifierSum [(.plus, digits), (.plus, ['1'])] =
      .ok ((Numeral.value digits + 1 : Nat) : Int) := by
  have hone : Roll.Notation.modifierSum [(.plus, ['1'])] = .ok 1 := rfl
  rw [Roll.Notation.modifierSum, Numeral.readSigned_of_length_le h, hone]
  rfl

theorem modifierSum_overlong :
    Roll.Notation.modifierSum overlong.modifiers = .ok ((10 ^ digitLimit : Nat) : Int) := by
  have hsum := modifierSum_succ (Nat.le_of_eq (@List.length_replicate _ digitLimit '9'))
  rw [value_nines] at hsum
  exact hsum

theorem unwritten_overlong : overlong.Unwritten .writing := by
  refine ⟨rfl, _, modifierSum_overlong, ?_⟩
  rw [Int.natAbs_natCast]
  exact Numeral.lt_length_text_pow

theorem value_overlong : overlong.value = .error (.tooLong .writing) := by
  have hmodifier := Roll.Notation.modifierValue_of_unwritten unwritten_overlong
  have hsides : Roll.Notation.sidesValue overlong.sides = .ok 6 := rfl
  rw [Roll.Notation.value, hsides, hmodifier]
  rfl

theorem shortIntegers_overlong : ShortIntegers overlongText := by
  apply shortIntegers_of_roll writes_overlong
  have hnumbers : overlong.numbers = [[], ['6'], List.replicate digitLimit '9', ['1']] := rfl
  simp only [hnumbers, List.forall_mem_cons]
  exact ⟨by decide, by decide, Nat.le_of_eq List.length_replicate, by decide, nofun⟩

/-- Its integers are all read, and yet the error is not one of the query: the sum of the
modifiers would have to be shown in it. -/
theorem not_isQuery_of_overlong :
    ShortIntegers overlongText ∧ Form.Holds (some .dice) overlongText ∧
      parse overlongText = .error (.roll (.tooLong .writing)) ∧
      (Lots.Error.expression (.roll (.tooLong .writing))).isQuery = false := by
  refine ⟨shortIntegers_overlong, ⟨_, writes_overlong⟩, ?_, rfl⟩
  rw [parse_of_writes_roll writes_overlong, value_overlong, ofRoll_error]

end Lots.Expr
