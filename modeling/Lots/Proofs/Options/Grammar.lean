import Lots.Options
import Lots.Proofs.Text.Runs

/-!
# Lots — the grammar of an options clause

What an options clause is, said without a recognizer, and that the recognizer finds exactly
this in a stripped text. The clause is an amount that may be left out, and letters of flags in
any number. A gap of spaces may stand before each letter, but not at the start of the text,
and nothing stands behind the last one.

* **`Writes`** — a text writes a clause: an amount first, or a flag, or nothing at all.
* **`takeAmount_of_writes`**, **`flags?_of_flagsBehind`** — completeness: an amount is taken as
  far as it goes, since no flag starts with a digit.
* **`exists_flagsBehind`** — soundness: flags that are found stand behind gaps, unless the text
  ends with a space.
* **`ofText?_eq_some_iff`** — the recognizer finds a clause in a stripped text exactly if the
  text writes it; so no text writes two of them.
-/

namespace Lots.Options

open Text (Digits Bounded Stripped)

/-! ## The grammar -/

/-- The text of an amount. No digits stand behind a zero that is the first of them. -/
inductive AmountText.Writes : AmountText → List Char → Prop where
  | all : AmountText.all.Writes ['a', 'l', 'l']
  | zero : (AmountText.digits ['0']).Writes ['0']
  | positive {c : Char} {rest : List Char} (hdigits : Digits (c :: rest)) (hzero : c ≠ '0') :
      (AmountText.digits (c :: rest)).Writes (c :: rest)

namespace Notation

/-- A text of spaces only, or of nothing. -/
def Gap (gap : List Char) : Prop :=
  ∀ c ∈ gap, isSpace c = true

/-- Flags, each behind a gap. -/
inductive FlagsBehind : List Flag → List Char → Prop where
  | nil : FlagsBehind [] []
  | cons {flag : Flag} {flags : List Flag} {gap text : List Char} (hgap : Gap gap)
      (hrest : FlagsBehind flags text) : FlagsBehind (flag :: flags) (gap ++ flag.toChar :: text)

/-- The text writes this clause. -/
inductive Writes : Notation → List Char → Prop where
  | empty : Writes ⟨none, []⟩ []
  | flag {flag : Flag} {flags : List Flag} {text : List Char} (hflags : FlagsBehind flags text) :
      Writes ⟨none, flag :: flags⟩ (flag.toChar :: text)
  | amount {amount : AmountText} {flags : List Flag} {token text : List Char}
      (hamount : amount.Writes token) (hflags : FlagsBehind flags text) :
      Writes ⟨some amount, flags⟩ (token ++ text)

/-! ## Characters of one kind -/

theorem isBlank_of_isSpace {c : Char} (h : isSpace c = true) : Text.isBlank c = true := by
  simp only [isSpace, Bool.or_eq_true, beq_iff_eq] at h
  rcases h with (((rfl | rfl) | rfl) | rfl) | rfl
  all_goals decide

theorem isDigit_of_isSpace {c : Char} (h : isSpace c = true) : c.isDigit = false := by
  simp only [isSpace, Bool.or_eq_true, beq_iff_eq] at h
  rcases h with (((rfl | rfl) | rfl) | rfl) | rfl
  all_goals decide

theorem isSpace_of_isDigit {c : Char} (h : c.isDigit = true) : isSpace c = false := by
  rw [Bool.eq_false_iff]
  intro hspace
  rw [isDigit_of_isSpace hspace] at h
  cases h

theorem isSpace_toChar (flag : Flag) : isSpace flag.toChar = false := by
  cases flag <;> rfl

theorem isDigit_toChar (flag : Flag) : flag.toChar.isDigit = false := by
  cases flag <;> rfl

/-- A stripped text starts with no space. -/
theorem dropWhile_isSpace_of_stripped {text : List Char} (h : Stripped text) :
    text.dropWhile isSpace = text := by
  cases text with
  | nil => rfl
  | cons c rest =>
    apply List.dropWhile_cons_of_neg
    intro hspace
    have hblank := h.head c rfl
    rw [isBlank_of_isSpace hspace] at hblank
    cases hblank

/-! ## Completeness -/

/-- An amount ends where flags start. -/
theorem FlagsBehind.bounded {flags : List Flag} {text : List Char} (h : FlagsBehind flags text) :
    Bounded Char.isDigit text := by
  cases h with
  | nil => exact Text.bounded_nil
  | @cons flag flags gap text hgap hrest =>
    cases gap with
    | nil => exact Text.bounded_cons (isDigit_toChar flag)
    | cons c gap => exact Text.bounded_cons (isDigit_of_isSpace (hgap c List.mem_cons_self))

theorem flags?_gap_append {gap text : List Char} (h : Gap gap) :
    flags? (gap ++ text) = flags? text := by
  induction gap with
  | nil => rfl
  | cons c gap ih =>
    obtain ⟨hc, hgap⟩ := List.forall_mem_cons.mp h
    rw [List.cons_append, flags?, if_pos hc, ih hgap]

theorem flags?_toChar_cons (flag : Flag) (text : List Char) :
    flags? (flag.toChar :: text) = (flags? text).map (flag :: ·) := by
  rw [flags?, isSpace_toChar, Flag.ofChar?_toChar]
  cases flags? text <;> rfl

theorem flags?_of_flagsBehind {flags : List Flag} {text : List Char}
    (h : FlagsBehind flags text) : flags? text = some flags := by
  induction h with
  | nil => rfl
  | cons hgap hrest ih => rw [flags?_gap_append hgap, flags?_toChar_cons, ih, Option.map_some]

theorem takeAmount_of_writes {amount : AmountText} {token rest : List Char}
    (h : amount.Writes token) (hrest : Bounded Char.isDigit rest) :
    takeAmount (token ++ rest) = (some amount, rest) := by
  cases h with
  | all | zero => rfl
  | @positive c digits hdigits hzero =>
    obtain ⟨hc, hmore⟩ := List.forall_mem_cons.mp hdigits
    rw [List.cons_append]
    unfold takeAmount
    split
    · next hall =>
      obtain ⟨rfl, -⟩ := List.cons.inj hall
      cases hc
    · next hcons => exact absurd (List.cons.inj hcons).1 hzero
    · next hcons =>
      obtain ⟨rfl, rfl⟩ := List.cons.inj hcons
      rw [if_pos hc, Text.takeWhile_run hmore hrest, Text.dropWhile_run hmore hrest]
    · next hnil => cases hnil

/-- No amount is taken where a flag stands. -/
theorem takeAmount_toChar_cons (flag : Flag) (text : List Char) :
    takeAmount (flag.toChar :: text) = (none, flag.toChar :: text) := by
  cases flag <;> rfl

theorem dropWhile_of_writes {amount : AmountText} {token : List Char}
    (h : amount.Writes token) (rest : List Char) :
    (token ++ rest).dropWhile isSpace = token ++ rest := by
  cases h with
  | all | zero => rfl
  | @positive c digits hdigits hzero =>
    apply List.dropWhile_cons_of_neg
    rw [isSpace_of_isDigit (hdigits c List.mem_cons_self)]
    exact Bool.false_ne_true

theorem ofText?_of_writes {written : Notation} {text : List Char} (h : Writes written text) :
    ofText? text = some written := by
  cases h with
  | empty => rfl
  | @flag flag flags text hflags =>
    have hfirst : (flag.toChar :: text).dropWhile isSpace = flag.toChar :: text :=
      List.dropWhile_cons_of_neg (by rw [isSpace_toChar]; exact Bool.false_ne_true)
    simp only [ofText?, hfirst, takeAmount_toChar_cons, flags?_toChar_cons,
      flags?_of_flagsBehind hflags, Option.map_some]
  | @amount amount flags token text hamount hflags =>
    simp only [ofText?, dropWhile_of_writes hamount,
      takeAmount_of_writes hamount hflags.bounded, flags?_of_flagsBehind hflags, Option.map_some]

/-! ## Soundness -/

theorem exists_amountText {s rest : List Char} {amount : AmountText}
    (h : takeAmount s = (some amount, rest)) :
    ∃ token, amount.Writes token ∧ s = token ++ rest := by
  unfold takeAmount at h
  split at h
  · cases h
    exact ⟨_, .all, rfl⟩
  · cases h
    exact ⟨_, .zero, rfl⟩
  · next c rest hall hzero =>
    split at h
    · next hdigit =>
      cases h
      have hdigits : Digits (c :: rest.takeWhile Char.isDigit) :=
        List.forall_mem_cons.mpr ⟨hdigit, Text.digits_takeWhile rest⟩
      have hne : c ≠ '0' := by
        rintro rfl
        exact hzero rfl
      refine ⟨_, .positive hdigits hne, ?_⟩
      rw [List.cons_append, List.takeWhile_append_dropWhile]
    · cases h
  · cases h

theorem eq_of_takeAmount_none {s rest : List Char} (h : takeAmount s = (none, rest)) :
    s = rest := by
  unfold takeAmount at h
  split at h
  · cases h
  · cases h
  · split at h
    · cases h
    · cases h
      rfl
  · cases h
    rfl

/-- Flags that are found stand behind gaps, and nothing stands behind them if the text does not
end with a space. -/
theorem exists_flagsBehind {s : List Char} {flags : List Flag} (h : flags? s = some flags)
    (hlast : ∀ c ∈ s.getLast?, isSpace c = false) : FlagsBehind flags s := by
  induction s generalizing flags with
  | nil =>
    cases h
    exact .nil
  | cons c rest ih =>
    have hlast' : ∀ d ∈ rest.getLast?, isSpace d = false := by
      intro d hd
      apply hlast
      simp [List.getLast?_cons, Option.mem_def.mp hd]
    rw [flags?] at h
    split at h
    · next hspace =>
      -- the space belongs to the gap of the flag behind it
      cases ih h hlast' with
      | nil =>
        rw [hlast c rfl] at hspace
        cases hspace
      | cons hgap hrest => exact .cons (List.forall_mem_cons.mpr ⟨hspace, hgap⟩) hrest
    · simp only [Option.bind_eq_bind, Option.bind_eq_some_iff, Option.pure_def,
        Option.some.injEq] at h
      obtain ⟨flag, hflag, more, hmore, rfl⟩ := h
      rw [← Flag.toChar_of_ofChar? hflag]
      exact FlagsBehind.cons (List.forall_mem_nil _) (ih hmore hlast')

theorem writes_of_ofText? {written : Notation} {text : List Char} (htext : Stripped text)
    (h : ofText? text = some written) : Writes written text := by
  have hlast : ∀ c ∈ text.getLast?, isSpace c = false := by
    intro c hc
    rw [Bool.eq_false_iff]
    intro hspace
    have hblank := htext.last c hc
    rw [isBlank_of_isSpace hspace] at hblank
    cases hblank
  rw [ofText?, dropWhile_isSpace_of_stripped htext] at h
  cases htake : takeAmount text with
  | mk amount rest =>
    rw [htake] at h
    obtain ⟨flags, hflags, rfl⟩ := Option.map_eq_some_iff.mp h
    cases amount with
    | none =>
      obtain rfl := eq_of_takeAmount_none htake
      -- the first flag stands behind no gap, since a stripped text does not start with a space
      cases exists_flagsBehind hflags hlast with
      | nil => exact .empty
      | @cons flag flags gap text hgap hrest =>
        cases gap with
        | nil => exact .flag hrest
        | cons c gap =>
          have hblank := htext.head c rfl
          rw [isBlank_of_isSpace (hgap c List.mem_cons_self)] at hblank
          cases hblank
    | some amount =>
      obtain ⟨token, hamount, rfl⟩ := exists_amountText htake
      refine .amount hamount (exists_flagsBehind hflags ?_)
      intro c hc
      apply hlast
      simp [List.getLast?_append, Option.mem_def.mp hc]

/-- **The recognizer finds the clause that a stripped text writes**, and none in other texts. -/
theorem ofText?_eq_some_iff {written : Notation} {text : List Char} (htext : Stripped text) :
    ofText? text = some written ↔ Writes written text :=
  ⟨writes_of_ofText? htext, ofText?_of_writes⟩

/-- A text writes one clause at most. -/
theorem Writes.unique {written other : Notation} {text : List Char} (h : Writes written text)
    (h' : Writes other text) : written = other := by
  have hother := ofText?_of_writes h'
  rw [ofText?_of_writes h] at hother
  exact Option.some.inj hother

end Lots.Options.Notation
