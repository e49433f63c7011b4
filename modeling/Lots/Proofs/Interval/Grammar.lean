import Lots.Interval.Notation
import Lots.Proofs.Text.Runs

/-!
# Lots — the grammar of interval notation

What interval notation is, said without a recognizer, and that the recognizer finds exactly
this. The bare form is two whole numbers around the dots, and nothing else. The bracket form is
a bracket, a number, a comma or dots, a number and a bracket, with gaps of spaces and tabs
before, between and behind them.

Points stand in numbers and between them. A number ends where no point with a digit behind it
follows, and two points never start a number, so the numbers that a greedy recognizer takes are
those that are written.

* **`NumberText.Writes`**, **`Notation.Writes`** — a text writes a number, or a notation.
* **`NumberText.take_of_writes`** — completeness for numbers: what is written is taken.
* **`Notation.ofText?_eq_some_iff`** — the recognizer finds a notation exactly in the texts that
  write it; so no text writes two of them.
* **`Notation.Writes.marked_bare`**, **`Notation.Writes.marked_bracket`** — how the two forms
  start, which tells them apart.
-/

namespace Lots.Interval

open Numeral (Sign)
open Text (Digits Bounded StartsIn)

namespace NumberText

/-! ## Numbers -/

def signText : Option Sign → List Char
  | none => []
  | some sign => [sign.toChar]

/-- The text writes this whole number: a sign that may be left out, and digits. -/
inductive WritesInt : NumberText → List Char → Prop where
  | intro {sign : Option Sign} {whole : List Char} (hwhole : Digits whole) (hne : whole ≠ []) :
      WritesInt ⟨sign, whole, none⟩ (signText sign ++ whole)

/-- The text writes this number: a whole number, or one with a point and digits behind it; the
digits before the point may be left out. -/
inductive Writes : NumberText → List Char → Prop where
  | whole {n : NumberText} {text : List Char} (h : WritesInt n text) : Writes n text
  | point {sign : Option Sign} {whole fraction : List Char} (hwhole : Digits whole)
      (hfraction : Digits fraction) (hne : fraction ≠ []) :
      Writes ⟨sign, whole, some fraction⟩ (signText sign ++ (whole ++ '.' :: fraction))

/-- What a number may start with. -/
def isStart (c : Char) : Bool :=
  c == '+' || c == '-' || c == '.' || c.isDigit

/-- What may stand behind a number: no digit, and no point with a digit behind it. -/
structure Ends (rest : List Char) : Prop where
  digit : Bounded Char.isDigit rest
  point : ∀ more, rest = '.' :: more → Bounded Char.isDigit more

theorem isStart_of_isDigit {c : Char} (h : c.isDigit = true) : isStart c = true := by
  simp [isStart, h]

theorem exists_start_digits {digits : List Char} (h : Digits digits) (hne : digits ≠ []) :
    ∃ c more, digits = c :: more ∧ isStart c = true := by
  obtain ⟨c, more, rfl⟩ := List.exists_cons_of_ne_nil hne
  exact ⟨c, more, rfl, isStart_of_isDigit (h c List.mem_cons_self)⟩

theorem exists_start_sign {sign : Option Sign} {text : List Char}
    (h : ∃ c more, text = c :: more ∧ isStart c = true) :
    ∃ c more, signText sign ++ text = c :: more ∧ isStart c = true := by
  cases sign with
  | none => exact h
  | some sign => exact ⟨sign.toChar, text, rfl, by cases sign <;> rfl⟩

theorem WritesInt.exists_start {n : NumberText} {text : List Char} (h : WritesInt n text) :
    ∃ c more, text = c :: more ∧ isStart c = true := by
  cases h with
  | intro hwhole hne => exact exists_start_sign (exists_start_digits hwhole hne)

theorem Writes.exists_start {n : NumberText} {text : List Char} (h : Writes n text) :
    ∃ c more, text = c :: more ∧ isStart c = true := by
  cases h with
  | whole h => exact h.exists_start
  | @point sign whole fraction hwhole hfraction hne =>
    apply exists_start_sign
    cases whole with
    | nil => exact ⟨'.', fraction, rfl, rfl⟩
    | cons c whole => exact ⟨c, _, rfl, isStart_of_isDigit (hwhole c List.mem_cons_self)⟩

/-! ### Completeness -/

theorem takeSign_signText {sign : Option Sign} {rest : List Char}
    (hrest : ∀ c ∈ rest.head?, Sign.ofChar? c = none) :
    takeSign (signText sign ++ rest) = (sign, rest) := by
  cases sign with
  | some sign => simp [signText, takeSign, Numeral.ofChar?_toChar]
  | none =>
    cases rest with
    | nil => rfl
    | cons c rest => simp [signText, takeSign, hrest c rfl]

/-- No sign stands where digits do. -/
theorem ofChar?_of_digits {digits rest : List Char} (h : Digits digits)
    (hrest : digits = [] → ∀ c ∈ rest.head?, Sign.ofChar? c = none) :
    ∀ c ∈ (digits ++ rest).head?, Sign.ofChar? c = none := by
  intro c hc
  cases digits with
  | nil => exact hrest rfl c hc
  | cons d digits =>
    cases hc
    exact Numeral.ofChar?_of_isDigit (h c List.mem_cons_self)

theorem takeInt_of_writesInt {n : NumberText} {text rest : List Char} (h : WritesInt n text)
    (hrest : Bounded Char.isDigit rest) : takeInt (text ++ rest) = some (n, rest) := by
  cases h with
  | @intro sign whole hwhole hne =>
    have hsign : ∀ c ∈ (whole ++ rest).head?, Sign.ofChar? c = none :=
      ofChar?_of_digits hwhole fun hnil => absurd hnil hne
    rw [List.append_assoc, takeInt, takeSign_signText hsign]
    simp [Text.takeWhile_run hwhole hrest, Text.dropWhile_run hwhole hrest, hne]

theorem takeFraction_of_ends {rest : List Char} (h : Ends rest) :
    takeFraction rest = (none, rest) := by
  unfold takeFraction
  split
  · next more =>
    have hnone : more.takeWhile Char.isDigit = [] :=
      Text.takeWhile_run Text.digits_nil (h.point more rfl)
    rw [hnone]
    rfl
  · rfl

theorem takeFraction_of_point {fraction rest : List Char} (hfraction : Digits fraction)
    (hne : fraction ≠ []) (hrest : Bounded Char.isDigit rest) :
    takeFraction ('.' :: (fraction ++ rest)) = (some fraction, rest) := by
  simp [takeFraction, Text.takeWhile_run hfraction hrest, Text.dropWhile_run hfraction hrest, hne]

theorem take_of_writes {n : NumberText} {text rest : List Char} (h : Writes n text)
    (hrest : Ends rest) : take (text ++ rest) = some (n, rest) := by
  cases h with
  | whole h =>
    cases h with
    | @intro sign whole hwhole hne =>
      have hsign : ∀ c ∈ (whole ++ rest).head?, Sign.ofChar? c = none :=
        ofChar?_of_digits hwhole fun hnil => absurd hnil hne
      rw [List.append_assoc, take, takeSign_signText hsign]
      simp [Text.takeWhile_run hwhole hrest.digit, Text.dropWhile_run hwhole hrest.digit,
        takeFraction_of_ends hrest, hne]
  | @point sign whole fraction hwhole hfraction hne =>
    have hpoint : Bounded Char.isDigit ('.' :: (fraction ++ rest)) := Text.bounded_cons (by decide)
    have hsign : ∀ c ∈ (whole ++ '.' :: (fraction ++ rest)).head?, Sign.ofChar? c = none := by
      apply ofChar?_of_digits hwhole
      rintro - c ⟨⟩
      rfl
    have htext : signText sign ++ (whole ++ '.' :: fraction) ++ rest =
        signText sign ++ (whole ++ '.' :: (fraction ++ rest)) := by simp
    rw [htext, take, takeSign_signText hsign]
    simp [Text.takeWhile_run hwhole hpoint, Text.dropWhile_run hwhole hpoint,
      takeFraction_of_point hfraction hne hrest.digit]

/-! ### Soundness -/

theorem eq_signText_append (s : List Char) :
    s = signText (takeSign s).1 ++ (takeSign s).2 := by
  unfold takeSign
  split
  · split
    · next sign hsign => rw [Numeral.toChar_of_ofChar? hsign]; rfl
    · rfl
  · rfl

theorem exists_writesInt {s rest : List Char} {n : NumberText} (h : takeInt s = some (n, rest)) :
    ∃ text, WritesInt n text ∧ s = text ++ rest := by
  unfold takeInt at h
  dsimp only at h
  split at h
  · cases h
  · next hne =>
    cases h
    refine ⟨_, .intro (Text.digits_takeWhile (takeSign s).2) (by simpa using hne), ?_⟩
    rw [List.append_assoc, List.takeWhile_append_dropWhile, ← eq_signText_append]

/-- A fraction that is taken is a point with digits behind it. -/
theorem takeFraction_cases (s : List Char) :
    takeFraction s = (none, s) ∨
      ∃ fraction rest, takeFraction s = (some fraction, rest) ∧ Digits fraction ∧
        fraction ≠ [] ∧ s = '.' :: (fraction ++ rest) := by
  unfold takeFraction
  split
  · next rest =>
    split
    · exact .inl rfl
    · next hne =>
      refine .inr ⟨_, _, rfl, Text.digits_takeWhile rest, by simpa using hne, ?_⟩
      rw [List.takeWhile_append_dropWhile]
  · exact .inl rfl

theorem exists_writes {s rest : List Char} {n : NumberText} (h : take s = some (n, rest)) :
    ∃ text, Writes n text ∧ s = text ++ rest := by
  have hsign := eq_signText_append s
  have hwhole : (takeSign s).2 = (takeSign s).2.takeWhile Char.isDigit ++
      (takeSign s).2.dropWhile Char.isDigit := List.takeWhile_append_dropWhile.symm
  have hdigits := Text.digits_takeWhile (takeSign s).2
  unfold take at h
  dsimp only at h
  rcases takeFraction_cases ((takeSign s).2.dropWhile Char.isDigit) with
    hnone | ⟨fraction, behind, hsome, hfraction, hne, hpoint⟩
  · rw [hnone] at h
    split at h
    · cases h
    · next hempty =>
      cases h
      refine ⟨_, .whole (.intro hdigits (by simpa using hempty)), ?_⟩
      rw [List.append_assoc, ← hwhole, ← hsign]
  · rw [hsome] at h
    simp only [Option.isNone_some, Bool.and_false, Bool.false_eq_true, if_false] at h
    cases h
    refine ⟨_, .point hdigits hfraction hne, ?_⟩
    rw [List.append_assoc, List.append_assoc, List.cons_append, ← hpoint, ← hwhole, ← hsign]

end NumberText

namespace Notation

/-! ## Notations -/

/-- Spaces and tabs, or nothing. -/
def Gap (s : List Char) : Prop :=
  ∀ c ∈ s, isSpace c = true

instance (s : List Char) : Decidable (Gap s) :=
  decidable_of_iff (s.all isSpace = true) List.all_eq_true

def betweenText : Between → List Char
  | .comma => [',']
  | .dots => ['.', '.']
  | .dotsEqual => ['.', '.', '=']

/-- The dots of the bare form; with an equals sign if the high end is included. -/
def dotsBetween (inclusive : Bool) : Between :=
  if inclusive then .dotsEqual else .dots

@[simp] theorem dotsBetween_beq (inclusive : Bool) :
    (dotsBetween inclusive == .dotsEqual) = inclusive := by
  cases inclusive <;> rfl

def openChar (included : Bool) : Char :=
  if included then '[' else '('

def closeChar (included : Bool) : Char :=
  if included then ']' else ')'

/-- The text writes this notation. -/
inductive Writes : Notation → List Char → Prop where
  | bare {start stop : NumberText} {inclusive : Bool} {s t : List Char}
      (hstart : start.WritesInt s) (hstop : stop.WritesInt t) :
      Writes (.bare start stop inclusive) (s ++ (betweenText (dotsBetween inclusive) ++ t))
  | bracket {start stop : NumberText} {lowIncluded highIncluded : Bool} {between : Between}
      {s t gap₀ gap₁ gap₂ gap₃ gap₄ gap₅ : List Char} (hstart : start.Writes s)
      (hstop : stop.Writes t) (h₀ : Gap gap₀) (h₁ : Gap gap₁) (h₂ : Gap gap₂) (h₃ : Gap gap₃)
      (h₄ : Gap gap₄) (h₅ : Gap gap₅) :
      Writes (.bracket lowIncluded start between stop highIncluded)
        (gap₀ ++ openChar lowIncluded :: (gap₁ ++ (s ++ (gap₂ ++ (betweenText between ++
          (gap₃ ++ (t ++ (gap₄ ++ closeChar highIncluded :: gap₅))))))))

/-! ### What stands in a gap, and behind it -/

theorem not_start_of_isSpace {c : Char} (h : isSpace c = true) : NumberText.isStart c = false := by
  have hspace : c = ' ' ∨ c = '\t' := by simpa [isSpace] using h
  rcases hspace with rfl | rfl <;> decide

theorem bounded_start {s : List Char} (h : ∃ c more, s = c :: more ∧ NumberText.isStart c = true)
    (rest : List Char) : Bounded isSpace (s ++ rest) := by
  obtain ⟨c, more, rfl, hstart⟩ := h
  apply Text.bounded_cons
  rw [Bool.eq_false_iff]
  intro hspace
  rw [not_start_of_isSpace hspace] at hstart
  cases hstart

/-- A gap is skipped, up to what is none. -/
theorem skip_gap {gap rest : List Char} (hgap : Gap gap) (hrest : Bounded isSpace rest) :
    skip (gap ++ rest) = rest :=
  Text.dropWhile_run hgap hrest

theorem exists_gap (s : List Char) : ∃ gap, Gap gap ∧ s = gap ++ skip s :=
  ⟨_, List.all_eq_true.mp List.all_takeWhile, List.takeWhile_append_dropWhile.symm⟩

theorem bounded_betweenText (between : Between) (rest : List Char) :
    Bounded isSpace (betweenText between ++ rest) := by
  cases between
  all_goals exact Text.bounded_cons (by decide)

theorem bounded_openChar (included : Bool) (rest : List Char) :
    Bounded isSpace (openChar included :: rest) := by
  cases included
  all_goals exact Text.bounded_cons (by decide)

theorem bounded_closeChar (included : Bool) (rest : List Char) :
    Bounded isSpace (closeChar included :: rest) := by
  cases included
  all_goals exact Text.bounded_cons (by decide)

/-! ### What ends a number -/

theorem ends_cons {c : Char} {rest : List Char} (hdigit : c.isDigit = false) (hpoint : c ≠ '.') :
    NumberText.Ends (c :: rest) where
  digit := Text.bounded_cons hdigit
  point := by
    rintro more ⟨⟩
    exact absurd rfl hpoint

theorem ends_betweenText (between : Between) (rest : List Char) :
    NumberText.Ends (betweenText between ++ rest) := by
  cases between with
  | comma => exact ends_cons (by decide) (by decide)
  | dots | dotsEqual =>
    -- behind the first dot stands another one, and no digit
    refine ⟨Text.bounded_cons (by decide), ?_⟩
    rintro more ⟨⟩
    exact Text.bounded_cons (by decide)

theorem ends_closeChar (included : Bool) (rest : List Char) :
    NumberText.Ends (closeChar included :: rest) := by
  cases included
  all_goals exact ends_cons (by decide) (by decide)

theorem ends_gap {gap rest : List Char} (hgap : Gap gap) (hrest : NumberText.Ends rest) :
    NumberText.Ends (gap ++ rest) := by
  cases gap with
  | nil => exact hrest
  | cons c gap =>
    have hspace : c = ' ' ∨ c = '\t' := by simpa [isSpace] using hgap c List.mem_cons_self
    rcases hspace with rfl | rfl
    all_goals exact ends_cons (by decide) (by decide)

/-! ### Completeness -/

/-- Dots are taken without an equals sign where none follows. -/
theorem takeDots_dotsBetween (inclusive : Bool) {rest : List Char}
    (hrest : ∀ more, rest ≠ '=' :: more) :
    takeDots (betweenText (dotsBetween inclusive) ++ rest) = some (dotsBetween inclusive, rest) := by
  cases inclusive with
  | true => rfl
  | false => exact takeDots.eq_2 rest hrest

theorem takeBetween_betweenText (between : Between) {rest : List Char}
    (hrest : ∀ more, rest ≠ '=' :: more) :
    takeBetween (betweenText between ++ rest) = some (between, rest) := by
  cases between with
  | comma => rfl
  | dots => exact takeDots_dotsBetween false hrest
  | dotsEqual => exact takeDots_dotsBetween true hrest

theorem takeOpen_openChar (included : Bool) (rest : List Char) :
    takeOpen (openChar included :: rest) = some (included, rest) := by
  cases included <;> rfl

theorem takeClose_closeChar (included : Bool) (rest : List Char) :
    takeClose (closeChar included :: rest) = some (included, rest) := by
  cases included <;> rfl

/-- No equals sign stands before a number, with a gap or without one. -/
theorem ne_equals {gap s rest : List Char} (hgap : Gap gap)
    (hs : ∃ c more, s = c :: more ∧ NumberText.isStart c = true) (more : List Char) :
    gap ++ (s ++ rest) ≠ '=' :: more := by
  intro h
  cases gap with
  | nil =>
    obtain ⟨c, tail, rfl, hstart⟩ := hs
    cases h
    cases hstart
  | cons c gap =>
    obtain ⟨rfl, -⟩ := List.cons.inj h
    cases hgap '=' List.mem_cons_self

theorem ofBare?_bare {start stop : NumberText} {inclusive : Bool} {s t : List Char}
    (hstart : start.WritesInt s) (hstop : stop.WritesInt t) :
    ofBare? (s ++ (betweenText (dotsBetween inclusive) ++ t)) =
      some (.bare start stop inclusive) := by
  have hequals : ∀ more, t ≠ '=' :: more := by
    simpa using @ne_equals [] t [] nofun hstop.exists_start
  have hbetween := (ends_betweenText (dotsBetween inclusive) t).digit
  have hlast := NumberText.takeInt_of_writesInt hstop Text.bounded_nil
  rw [List.append_nil] at hlast
  simp only [ofBare?, NumberText.takeInt_of_writesInt hstart hbetween,
    takeDots_dotsBetween inclusive hequals, hlast, Option.bind_eq_bind, Option.bind_some,
    dotsBetween_beq]
  rfl

theorem ofBracket?_bracket {start stop : NumberText} {lowIncluded highIncluded : Bool}
    {between : Between} {s t gap₀ gap₁ gap₂ gap₃ gap₄ gap₅ : List Char} (hstart : start.Writes s)
    (hstop : stop.Writes t) (h₀ : Gap gap₀) (h₁ : Gap gap₁) (h₂ : Gap gap₂) (h₃ : Gap gap₃)
    (h₄ : Gap gap₄) (h₅ : Gap gap₅) :
    ofBracket? (gap₀ ++ openChar lowIncluded :: (gap₁ ++ (s ++ (gap₂ ++ (betweenText between ++
      (gap₃ ++ (t ++ (gap₄ ++ closeChar highIncluded :: gap₅)))))))) =
      some (.bracket lowIncluded start between stop highIncluded) := by
  have hlast : skip gap₅ = [] := by simpa using skip_gap h₅ Text.bounded_nil
  -- each token ends where the next one, or the gap before it, starts
  simp only [ofBracket?, skip_gap h₀ (bounded_openChar lowIncluded _), takeOpen_openChar,
    skip_gap h₁ (bounded_start hstart.exists_start _),
    NumberText.take_of_writes hstart (ends_gap h₂ (ends_betweenText between _)),
    skip_gap h₂ (bounded_betweenText between _),
    takeBetween_betweenText between (ne_equals h₃ hstop.exists_start),
    skip_gap h₃ (bounded_start hstop.exists_start _),
    NumberText.take_of_writes hstop (ends_gap h₄ (ends_closeChar highIncluded _)),
    skip_gap h₄ (bounded_closeChar highIncluded _), takeClose_closeChar, hlast,
    Option.bind_eq_bind, Option.bind_some]
  rfl

/-! ### Soundness -/

theorem eq_of_takeDots {s rest : List Char} {between : Between}
    (h : takeDots s = some (between, rest)) :
    ∃ inclusive, between = dotsBetween inclusive ∧ s = betweenText between ++ rest := by
  unfold takeDots at h
  split at h
  all_goals cases h
  · exact ⟨true, rfl, rfl⟩
  · exact ⟨false, rfl, rfl⟩

theorem eq_of_takeBetween {s rest : List Char} {between : Between}
    (h : takeBetween s = some (between, rest)) : s = betweenText between ++ rest := by
  unfold takeBetween at h
  split at h
  · cases h
    rfl
  · obtain ⟨-, -, rfl⟩ := eq_of_takeDots h
    rfl

theorem eq_of_takeOpen {s rest : List Char} {included : Bool}
    (h : takeOpen s = some (included, rest)) : s = openChar included :: rest := by
  unfold takeOpen at h
  split at h
  all_goals cases h
  all_goals rfl

theorem eq_of_takeClose {s rest : List Char} {included : Bool}
    (h : takeClose s = some (included, rest)) : s = closeChar included :: rest := by
  unfold takeClose at h
  split at h
  all_goals cases h
  all_goals rfl

theorem exists_bare {text : List Char} {written : Notation} (h : ofBare? text = some written) :
    ∃ start stop inclusive, written = .bare start stop inclusive ∧ Writes written text := by
  simp only [ofBare?, Option.bind_eq_bind, Option.bind_eq_some_iff, Option.pure_def] at h
  obtain ⟨⟨start, rest₁⟩, hstart, ⟨between, rest₂⟩, hbetween, ⟨stop, rest₃⟩, hstop, hend⟩ := h
  obtain ⟨s, hs, rfl⟩ := NumberText.exists_writesInt hstart
  obtain ⟨inclusive, rfl, rfl⟩ := eq_of_takeDots hbetween
  obtain ⟨t, ht, rfl⟩ := NumberText.exists_writesInt hstop
  dsimp only at hend
  split at hend
  · next hempty =>
    cases hend
    rw [List.isEmpty_iff.mp hempty, List.append_nil, dotsBetween_beq]
    exact ⟨start, stop, inclusive, rfl, .bare hs ht⟩
  · cases hend

theorem exists_bracket {text : List Char} {written : Notation}
    (h : ofBracket? text = some written) :
    ∃ lowIncluded start between stop highIncluded,
      written = .bracket lowIncluded start between stop highIncluded ∧ Writes written text := by
  simp only [ofBracket?, Option.bind_eq_bind, Option.bind_eq_some_iff, Option.pure_def] at h
  obtain ⟨⟨low, rest₁⟩, hopen, ⟨start, rest₂⟩, hstart, ⟨between, rest₃⟩, hbetween,
    ⟨stop, rest₄⟩, hstop, ⟨high, rest₅⟩, hclose, hend⟩ := h
  obtain ⟨gap₀, h₀, htext⟩ := exists_gap text
  obtain ⟨gap₁, h₁, hrest₁⟩ := exists_gap rest₁
  obtain ⟨s, hs, hskip₁⟩ := NumberText.exists_writes hstart
  obtain ⟨gap₂, h₂, hrest₂⟩ := exists_gap rest₂
  obtain ⟨gap₃, h₃, hrest₃⟩ := exists_gap rest₃
  obtain ⟨t, ht, hskip₃⟩ := NumberText.exists_writes hstop
  obtain ⟨gap₄, h₄, hrest₄⟩ := exists_gap rest₄
  obtain ⟨gap₅, h₅, hrest₅⟩ := exists_gap rest₅
  dsimp only at hend
  split at hend
  · next hempty =>
    cases hend
    rw [List.isEmpty_iff.mp hempty, List.append_nil] at hrest₅
    -- the tokens and the gaps make up the text
    rw [htext, eq_of_takeOpen hopen, hrest₁, hskip₁, hrest₂, eq_of_takeBetween hbetween, hrest₃,
      hskip₃, hrest₄, eq_of_takeClose hclose, hrest₅]
    exact ⟨low, start, between, stop, high, rfl, .bracket hs ht h₀ h₁ h₂ h₃ h₄ h₅⟩
  · cases hend

/-! ### The two forms -/

theorem marked_betweenText {digits : List Char} (hdigits : Digits digits) (inclusive : Bool)
    (rest : List Char) :
    Text.Marked ['+', '-', '.'] (digits ++ (betweenText (dotsBetween inclusive) ++ rest)) := by
  cases inclusive
  all_goals exact .run hdigits (by decide) (by decide)

/-- Behind the first digits of the bare form stands a dot; or its sign, before all digits. -/
theorem Writes.marked_bare {start stop : NumberText} {inclusive : Bool} {text : List Char}
    (h : Writes (.bare start stop inclusive) text) : Text.Marked ['+', '-', '.'] text := by
  cases h with
  | bare hstart hstop =>
    cases hstart with
    | @intro sign whole hwhole hne =>
      cases sign with
      | none => exact marked_betweenText hwhole inclusive _
      | some sign =>
        cases sign
        all_goals exact .cons (by decide) (by decide)

/-- The bracket form starts with its bracket, or with a gap. -/
theorem Writes.marked_bracket {start stop : NumberText} {lowIncluded highIncluded : Bool}
    {between : Between} {text : List Char}
    (h : Writes (.bracket lowIncluded start between stop highIncluded) text) :
    Text.Marked ['[', '(', ' ', '\t'] text := by
  cases h with
  | @bracket _ _ _ _ _ _ _ gap₀ gap₁ gap₂ gap₃ gap₄ gap₅ _ _ h₀ =>
    cases gap₀ with
    | nil =>
      cases lowIncluded
      all_goals exact .cons (by decide) (by decide)
    | cons c gap =>
      have hspace : c = ' ' ∨ c = '\t' := by simpa [isSpace] using h₀ c List.mem_cons_self
      rcases hspace with rfl | rfl
      all_goals exact .cons (by decide) (by decide)

theorem ofBare?_of_writes {start stop : NumberText} {inclusive : Bool} {text : List Char}
    (h : Writes (.bare start stop inclusive) text) :
    ofBare? text = some (.bare start stop inclusive) := by
  cases h with
  | bare hstart hstop => exact ofBare?_bare hstart hstop

theorem ofBracket?_of_writes {start stop : NumberText} {lowIncluded highIncluded : Bool}
    {between : Between} {text : List Char}
    (h : Writes (.bracket lowIncluded start between stop highIncluded) text) :
    ofBracket? text = some (.bracket lowIncluded start between stop highIncluded) := by
  cases h with
  | bracket hstart hstop h₀ h₁ h₂ h₃ h₄ h₅ =>
    exact ofBracket?_bracket hstart hstop h₀ h₁ h₂ h₃ h₄ h₅

/-- A text in the bracket form is not in the bare form. -/
theorem Writes.ofBare?_eq_none {start stop : NumberText} {lowIncluded highIncluded : Bool}
    {between : Between} {text : List Char}
    (h : Writes (.bracket lowIncluded start between stop highIncluded) text) :
    ofBare? text = none := by
  cases hbare : ofBare? text with
  | none => rfl
  | some other =>
    obtain ⟨start, stop, inclusive, rfl, hwrites⟩ := exists_bare hbare
    exact (h.marked_bracket.disjoint hwrites.marked_bare (by decide)).elim

theorem ofText?_of_writes {written : Notation} {text : List Char} (h : Writes written text) :
    ofText? text = some written := by
  cases written with
  | bare start stop inclusive => rw [ofText?, ofBare?_of_writes h, Option.some_or]
  | bracket lowIncluded start between stop highIncluded =>
    rw [ofText?, h.ofBare?_eq_none, Option.none_or, ofBracket?_of_writes h]

theorem writes_of_ofText? {written : Notation} {text : List Char}
    (h : ofText? text = some written) : Writes written text := by
  rcases Option.or_eq_some_iff.mp h with hbare | ⟨-, hbracket⟩
  · obtain ⟨-, -, -, -, hwrites⟩ := exists_bare hbare
    exact hwrites
  · obtain ⟨-, -, -, -, -, -, hwrites⟩ := exists_bracket hbracket
    exact hwrites

/-- **The recognizer finds the notation that a text writes**, and none in other texts. -/
theorem ofText?_eq_some_iff {written : Notation} {text : List Char} :
    ofText? text = some written ↔ Writes written text :=
  ⟨writes_of_ofText?, ofText?_of_writes⟩

/-- A text writes one notation at most. -/
theorem Writes.unique {written other : Notation} {text : List Char} (h : Writes written text)
    (h' : Writes other text) : written = other := by
  have hother := ofText?_of_writes h'
  rw [ofText?_of_writes h] at hother
  exact Option.some.inj hother

end Notation

end Lots.Interval
