import Lots.Text.Blank
import Lots.Text.Lines
import Mathlib.Data.List.TakeWhile

/-!
# Lots — the lines of standard input

What the lines of a text are, said without cutting it: the text is its lines, one behind the
other, each with the break that ends it. A line feed, a carriage return, and a carriage return
with a line feed behind it are breaks; the last line may end with the text instead, if it is not
empty.

* **`InputText`** — a text has these lines.
* **`inputLines_eq_iff`** — `inputLines` finds them; so a text has its lines in one way only.
* **`strip_eq_nil_iff`** — nothing remains of a line that is blank, and of no other.
-/

namespace Lots.Text

/-! ## Lines and their breaks -/

/-- The text of standard input with these lines. -/
inductive InputText : List (List Char) → List Char → Prop where
  | nil : InputText [] []
  /-- The last line ends with the text. -/
  | last {line : List Char} (hne : line ≠ []) (hfeed : '\n' ∉ line) (hreturn : '\r' ∉ line) :
      InputText [line] line
  | feed {line text : List Char} {lines : List (List Char)} (hfeed : '\n' ∉ line)
      (hreturn : '\r' ∉ line) (hrest : InputText lines text) :
      InputText (line :: lines) (line ++ '\n' :: text)
  /-- A carriage return alone ends a line if no line feed follows, which would belong to it. -/
  | carriage {line text : List Char} {lines : List (List Char)} (hfeed : '\n' ∉ line)
      (hreturn : '\r' ∉ line) (halone : '\n' ∉ text.head?) (hrest : InputText lines text) :
      InputText (line :: lines) (line ++ '\r' :: text)
  | both {line text : List Char} {lines : List (List Char)} (hfeed : '\n' ∉ line)
      (hreturn : '\r' ∉ line) (hrest : InputText lines text) :
      InputText (line :: lines) (line ++ '\r' :: '\n' :: text)

theorem isInputBreak_eq_false_iff {c : Char} :
    isInputBreak c = false ↔ c ≠ '\n' ∧ c ≠ '\r' := by
  simp [isInputBreak]

/-- A character that breaks no line comes to stand in front of the first one. -/
theorem InputText.cons {c : Char} {first text : List Char} {more : List (List Char)}
    (hc : isInputBreak c = false) (h : InputText (first :: more) text) :
    InputText ((c :: first) :: more) (c :: text) := by
  obtain ⟨hnewline, hcarriage⟩ := isInputBreak_eq_false_iff.mp hc
  have hnot : ∀ {d : Char}, c ≠ d → d ∉ first → d ∉ c :: first := by
    intro d hne hmem
    simp [hne.symm, hmem]
  cases h with
  | last hne hfeed hreturn =>
    exact .last (List.cons_ne_nil c _) (hnot hnewline hfeed) (hnot hcarriage hreturn)
  | feed hfeed hreturn hrest => exact .feed (hnot hnewline hfeed) (hnot hcarriage hreturn) hrest
  | carriage hfeed hreturn halone hrest =>
    exact .carriage (hnot hnewline hfeed) (hnot hcarriage hreturn) halone hrest
  | both hfeed hreturn hrest => exact .both (hnot hnewline hfeed) (hnot hcarriage hreturn) hrest

theorem inputText_inputLines (text : List Char) : InputText (inputLines text) text := by
  unfold inputLines
  fun_induction linesBy isInputBreak text with
  | case1 => exact .nil
  | case2 rest ih => exact .both List.not_mem_nil List.not_mem_nil ih
  | case3 a rest hpair ha ih =>
    have hbreak : a = '\n' ∨ a = '\r' := by simpa [isInputBreak] using ha
    rcases hbreak with rfl | rfl
    · exact .feed List.not_mem_nil List.not_mem_nil ih
    · refine .carriage List.not_mem_nil List.not_mem_nil ?_ ih
      intro hnext
      obtain ⟨more, rfl⟩ := List.head?_eq_some_iff.mp hnext
      exact hpair more rfl rfl
  | case4 a rest hpair ha hrest ih =>
    obtain rfl := linesBy_eq_nil hrest
    obtain ⟨hnewline, hcarriage⟩ := isInputBreak_eq_false_iff.mp (by simpa using ha)
    exact .last (List.cons_ne_nil a []) (by simp [hnewline.symm]) (by simp [hcarriage.symm])
  | case5 a rest hpair ha first more hrest ih =>
    rw [hrest] at ih
    exact ih.cons (by simpa using ha)

/-! ## One way to cut -/

/-- What stands before the first break belongs to the first line. -/
theorem inputLines_append {line text : List Char} (hne : line ≠ []) (hfeed : '\n' ∉ line)
    (hreturn : '\r' ∉ line) :
    inputLines (line ++ text) =
      (line ++ (inputLines text).headD []) :: (inputLines text).tail := by
  induction line with
  | nil => exact absurd rfl hne
  | cons c line ih =>
    simp only [List.mem_cons, not_or] at hfeed hreturn
    have hc : isInputBreak c = false :=
      isInputBreak_eq_false_iff.mpr ⟨Ne.symm hfeed.1, Ne.symm hreturn.1⟩
    rw [List.cons_append, inputLines, linesBy_cons rfl hc]
    cases line with
    | nil => rfl
    | cons d line =>
      have hrest := ih (List.cons_ne_nil d line) hfeed.2 hreturn.2
      rw [inputLines] at hrest
      rw [hrest]
      rfl

/-- A line with its break is the first line, and the others are those of what follows. -/
theorem inputLines_break {line mark text : List Char} (hfeed : '\n' ∉ line)
    (hreturn : '\r' ∉ line) (hmark : inputLines (mark ++ text) = [] :: inputLines text) :
    inputLines (line ++ (mark ++ text)) = line :: inputLines text := by
  by_cases hne : line = []
  · rw [hne, List.nil_append, hmark]
  · rw [inputLines_append hne hfeed hreturn, hmark]
    simp

theorem InputText.inputLines_eq {lines : List (List Char)} {text : List Char}
    (h : InputText lines text) : inputLines text = lines := by
  induction h with
  | nil => rfl
  | @last line hne hfeed hreturn =>
    have hline := @inputLines_append line [] hne hfeed hreturn
    simpa [inputLines, linesBy] using hline
  | @feed line text lines hfeed hreturn hrest ih =>
    have hmark : inputLines (['\n'] ++ text) = [] :: inputLines text := by
      apply linesBy_break _ rfl
      intro more hmark
      cases hmark
    rw [← ih]
    exact inputLines_break hfeed hreturn hmark
  | @carriage line text lines hfeed hreturn halone hrest ih =>
    have hmark : inputLines (['\r'] ++ text) = [] :: inputLines text := by
      apply linesBy_break _ rfl
      rintro more - rfl
      exact halone rfl
    rw [← ih]
    exact inputLines_break hfeed hreturn hmark
  | @both line text lines hfeed hreturn hrest ih =>
    have hmark : inputLines (['\r', '\n'] ++ text) = [] :: inputLines text := rfl
    rw [← ih]
    exact inputLines_break hfeed hreturn hmark

/-- **The lines of a text**: cutting finds those that it has, and it has no others. -/
theorem inputLines_eq_iff {lines : List (List Char)} {text : List Char} :
    inputLines text = lines ↔ InputText lines text := by
  refine ⟨?_, InputText.inputLines_eq⟩
  rintro rfl
  exact inputText_inputLines text

/-- A carriage return and a line feed are one break, the other way round they are two, and a text
that ends in a break has no further line. -/
example : InputText [['a'], [], ['b'], []] ['a', '\r', '\n', '\n', 'b', '\n', '\r'] :=
  inputLines_eq_iff.mp rfl

/-! ## Blank lines -/

theorem strip_eq_nil_iff {s : List Char} : strip s = [] ↔ ∀ c ∈ s, isBlank c = true := by
  constructor
  · intro h
    obtain ⟨before, after, hbefore, hafter, happend⟩ := exists_append_strip s
    rw [← happend, h, List.append_nil]
    exact List.forall_mem_append.mpr ⟨hbefore, hafter⟩
  · exact strip_of_blank

end Lots.Text
