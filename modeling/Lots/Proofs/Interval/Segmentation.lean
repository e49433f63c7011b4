import Lots.Proofs.Interval.Grammar
import Lots.Proofs.Numeral.Refusal

/-!
# Lots — the tokens of the bracket form

A text in the bracket form can be cut into its tokens, and the gaps around them, in one way only.
Points stand in numbers and between them, so a run of dots looks as if it could be cut in several
places; but a number takes all it can, and what it cannot take does not belong to it.

* **`IsNumber`** — the texts that are numbers, said without a value.
* **`Segmentation`** — a text cut into tokens and gaps; `Segmentation.Valid` says which ones the
  bracket form allows, and `Segmentation.Spells` which notation they write.
* **`NumberText.Writes.length_le_of_ends`** — no longer number stands where a number ends.
* **`Segmentation.unique`** — a text has one segmentation at most; and its numbers are the longest
  that stand where they start (`Segmentation.Greedy`).
* **`Segmentation.Spells.fits`** — the kind of interval is seen from the tokens.
* **`brackets_recognized`** — the recognizer finds the texts with a segmentation, and reads what
  its tokens say.
-/

namespace Lots.Interval

open Text (Digits Bounded)

/-! ## Numbers -/

/-- An optional sign, digits with a point behind them or nothing, and then digits, at least one. -/
def IsNumber (s : List Char) : Prop :=
  ∃ sign point digits : List Char, (sign = [] ∨ sign = ['+'] ∨ sign = ['-']) ∧
    (point = [] ∨ ∃ whole, Digits whole ∧ point = whole ++ ['.']) ∧
    Digits digits ∧ digits ≠ [] ∧ s = sign ++ (point ++ digits)

namespace NumberText

variable {n : NumberText} {s : List Char}

theorem exists_signText_iff : (s = [] ∨ s = ['+'] ∨ s = ['-']) ↔ ∃ sign, s = signText sign := by
  constructor
  · rintro (rfl | rfl | rfl)
    · exact ⟨none, rfl⟩
    · exact ⟨some .plus, rfl⟩
    · exact ⟨some .minus, rfl⟩
  · rintro ⟨_ | _ | _, rfl⟩
    · exact .inl rfl
    · exact .inr (.inl rfl)
    · exact .inr (.inr rfl)

/-- The texts of numbers are those that write one. -/
theorem isNumber_iff : IsNumber s ↔ ∃ n : NumberText, n.Writes s := by
  constructor
  · rintro ⟨sign, point, digits, hsign, hpoint, hdigits, hne, rfl⟩
    obtain ⟨sign, rfl⟩ := exists_signText_iff.mp hsign
    rcases hpoint with rfl | ⟨whole, hwhole, rfl⟩
    · exact ⟨_, .whole (.intro hdigits hne)⟩
    · rw [List.append_assoc, List.singleton_append]
      exact ⟨_, .point hwhole hdigits hne⟩
  · rintro ⟨n, h⟩
    cases h with
    | whole h =>
      cases h with
      | @intro sign whole hwhole hne =>
        exact ⟨_, [], whole, exists_signText_iff.mpr ⟨sign, rfl⟩, .inl rfl, hwhole, hne, rfl⟩
    | @point sign whole fraction hwhole hfraction hne =>
      refine ⟨_, whole ++ ['.'], fraction, exists_signText_iff.mpr ⟨sign, rfl⟩,
        .inr ⟨whole, hwhole, rfl⟩, hfraction, hne, ?_⟩
      rw [List.append_assoc, List.singleton_append]

/-- A number is written in one way. -/
theorem Writes.text_unique {t : List Char} (h : n.Writes s) (h' : n.Writes t) : s = t := by
  cases h with
  | whole h =>
    cases h with
    | intro =>
      cases h' with
      | whole h' =>
        cases h' with
        | intro => rfl
  | point =>
    cases h' with
    | whole h' => cases h'
    | point => rfl

/-- A point is written exactly with a fraction. -/
theorem Writes.point_mem_iff (h : n.Writes s) : '.' ∈ s ↔ n.fraction.isSome = true := by
  have hsign : ∀ sign, '.' ∉ signText sign := by
    rintro (_ | _ | _)
    all_goals decide
  have hdigits : ∀ {digits : List Char}, Digits digits → '.' ∉ digits :=
    fun hdigits hmem => absurd (hdigits '.' hmem) (by decide)
  cases h with
  | whole h =>
    cases h with
    | @intro sign whole hwhole hne =>
      simp [hsign, hdigits hwhole]
  | point => simp

/-- What may stand behind a number may be cut off anywhere. -/
theorem Ends.of_prefix {rest d : List Char} (h : Ends rest) (hd : d <+: rest) : Ends d := by
  have hbounded : ∀ {s t : List Char}, Bounded Char.isDigit t → s <+: t →
      Bounded Char.isDigit s := by
    rintro s t ht ⟨more, rfl⟩
    cases s with
    | nil => exact Text.bounded_nil
    | cons c s => exact Text.bounded_cons (ht c rfl)
  refine ⟨hbounded h.digit hd, ?_⟩
  rintro more rfl
  obtain ⟨behind, rfl⟩ := hd
  exact hbounded (h.point _ rfl) (List.prefix_append more behind)

/-- **No longer number stands where a number ends.** -/
theorem Writes.length_le_of_ends {rest t : List Char} (h : n.Writes s) (hrest : Ends rest)
    (ht : t <+: s ++ rest) (hnumber : IsNumber t) : t.length ≤ s.length := by
  obtain ⟨other, hother⟩ := isNumber_iff.mp hnumber
  refine Nat.le_of_not_lt fun hlt => ?_
  -- the longer text goes on with what may stand behind a number, and that is not taken
  obtain ⟨d, rfl⟩ : s <+: t :=
    List.prefix_of_prefix_length_le (List.prefix_append s rest) ht (Nat.le_of_lt hlt)
  have hd : Ends d := hrest.of_prefix ((List.prefix_append_right_inj s).mp ht)
  have hshort := take_of_writes h hd
  have hlong := @take_of_writes _ _ [] hother ⟨Text.bounded_nil, nofun⟩
  rw [List.append_nil, hshort] at hlong
  cases hlong
  simp at hlt

end NumberText

/-! ## Other tokens -/

namespace Notation

variable {c : Char} {s : List Char}

theorem exists_openChar_iff : (c = '[' ∨ c = '(') ↔ ∃ included, c = openChar included := by
  constructor
  · rintro (rfl | rfl)
    · exact ⟨true, rfl⟩
    · exact ⟨false, rfl⟩
  · rintro ⟨_ | _, rfl⟩
    · exact .inr rfl
    · exact .inl rfl

theorem exists_closeChar_iff : (c = ']' ∨ c = ')') ↔ ∃ included, c = closeChar included := by
  constructor
  · rintro (rfl | rfl)
    · exact ⟨true, rfl⟩
    · exact ⟨false, rfl⟩
  · rintro ⟨_ | _, rfl⟩
    · exact .inr rfl
    · exact .inl rfl

theorem exists_betweenText_iff :
    (s = [','] ∨ s = ['.', '.', '='] ∨ s = ['.', '.']) ↔ ∃ between, s = betweenText between := by
  constructor
  · rintro (rfl | rfl | rfl)
    · exact ⟨.comma, rfl⟩
    · exact ⟨.dotsEqual, rfl⟩
    · exact ⟨.dots, rfl⟩
  · rintro ⟨_ | _ | _, rfl⟩
    · exact .inl rfl
    · exact .inr (.inr rfl)
    · exact .inr (.inl rfl)

theorem betweenText_inj {between other : Between} :
    betweenText between = betweenText other ↔ between = other := by
  cases between
  all_goals cases other
  all_goals decide

end Notation

/-! ## Kinds -/

/-- An interval of the kind that was asked for, with the ends included that were. -/
structure Shaped (i : Interval) (float lowIncluded highIncluded : Bool) : Prop where
  isFloat : i.isFloat = float
  low : i.lowIncluded = lowIncluded
  high : i.highIncluded = highIncluded

variable {lowIncluded highIncluded : Bool} {start stop : NumberText}

theorem Notation.shaped_of_intValue {i : Interval}
    (h : intValue lowIncluded start stop highIncluded = .ok i) :
    Shaped i false lowIncluded highIncluded := by
  obtain ⟨low, -, h⟩ := bind_eq_ok_iff.mp h
  obtain ⟨high, -, h⟩ := bind_eq_ok_iff.mp h
  obtain ⟨range, -, h⟩ := bind_eq_ok_iff.mp h
  cases h
  exact ⟨rfl, rfl, rfl⟩

theorem Notation.shaped_of_floatValue {i : Interval}
    (h : floatValue lowIncluded start stop highIncluded = .ok i) :
    Shaped i true lowIncluded highIncluded := by
  obtain ⟨low, -, h⟩ := bind_eq_ok_iff.mp h
  obtain ⟨high, -, h⟩ := bind_eq_ok_iff.mp h
  simp only [throw_bind] at h
  split at h
  · cases h
  split at h
  · cases h
  cases h
  exact ⟨rfl, rfl, rfl⟩

/-! ## Segmentations -/

/-- A text cut into the tokens of the bracket form and the gaps around them. -/
structure Segmentation where
  before : List Char
  opening : Char
  afterOpening : List Char
  start : List Char
  afterStart : List Char
  between : List Char
  beforeStop : List Char
  stop : List Char
  afterStop : List Char
  closing : Char
  after : List Char

namespace Segmentation

/-- The text from its second number on. -/
def fromStop (seg : Segmentation) : List Char :=
  seg.stop ++ (seg.afterStop ++ seg.closing :: seg.after)

/-- The text from its first number on. -/
def fromStart (seg : Segmentation) : List Char :=
  seg.start ++ (seg.afterStart ++ (seg.between ++ (seg.beforeStop ++ seg.fromStop)))

def text (seg : Segmentation) : List Char :=
  seg.before ++ seg.opening :: (seg.afterOpening ++ seg.fromStart)

/-- The tokens of the bracket form, with spaces and tabs around them. -/
structure Valid (seg : Segmentation) : Prop where
  opening : seg.opening = '[' ∨ seg.opening = '('
  start : IsNumber seg.start
  between : seg.between = [','] ∨ seg.between = ['.', '.', '='] ∨ seg.between = ['.', '.']
  stop : IsNumber seg.stop
  closing : seg.closing = ']' ∨ seg.closing = ')'
  gaps : ∀ gap ∈ [seg.before, seg.afterOpening, seg.afterStart, seg.beforeStop, seg.afterStop,
    seg.after], Notation.Gap gap

/-- The tokens write this bracket form. -/
structure Spells (seg : Segmentation) (lowIncluded : Bool) (start : NumberText)
    (between : Between) (stop : NumberText) (highIncluded : Bool) : Prop where
  opening : seg.opening = Notation.openChar lowIncluded
  start : start.Writes seg.start
  between : seg.between = Notation.betweenText between
  stop : stop.Writes seg.stop
  closing : seg.closing = Notation.closeChar highIncluded
  gaps : ∀ gap ∈ [seg.before, seg.afterOpening, seg.afterStart, seg.beforeStop, seg.afterStop,
    seg.after], Notation.Gap gap

variable {seg : Segmentation} {between : Between}

/-- The tokens of the bracket form write one. -/
theorem valid_iff : seg.Valid ↔ ∃ lowIncluded start between stop highIncluded,
    seg.Spells lowIncluded start between stop highIncluded := by
  constructor
  · intro h
    obtain ⟨lowIncluded, hopening⟩ := Notation.exists_openChar_iff.mp h.opening
    obtain ⟨start, hstart⟩ := NumberText.isNumber_iff.mp h.start
    obtain ⟨between, hbetween⟩ := Notation.exists_betweenText_iff.mp h.between
    obtain ⟨stop, hstop⟩ := NumberText.isNumber_iff.mp h.stop
    obtain ⟨highIncluded, hclosing⟩ := Notation.exists_closeChar_iff.mp h.closing
    exact ⟨lowIncluded, start, between, stop, highIncluded, hopening, hstart, hbetween, hstop,
      hclosing, h.gaps⟩
  · rintro ⟨lowIncluded, start, between, stop, highIncluded, h⟩
    exact {
      opening := Notation.exists_openChar_iff.mpr ⟨lowIncluded, h.opening⟩
      start := NumberText.isNumber_iff.mpr ⟨start, h.start⟩
      between := Notation.exists_betweenText_iff.mpr ⟨between, h.between⟩
      stop := NumberText.isNumber_iff.mpr ⟨stop, h.stop⟩
      closing := Notation.exists_closeChar_iff.mpr ⟨highIncluded, h.closing⟩
      gaps := h.gaps }

theorem Spells.writes (h : seg.Spells lowIncluded start between stop highIncluded) :
    Notation.Writes (.bracket lowIncluded start between stop highIncluded) seg.text := by
  have hgaps := h.gaps
  simp only [List.forall_mem_cons, List.not_mem_nil, false_imp_iff, implies_true, and_true] at hgaps
  obtain ⟨h₀, h₁, h₂, h₃, h₄, h₅⟩ := hgaps
  rw [text, fromStart, fromStop, h.opening, h.between, h.closing]
  exact .bracket h.start h.stop h₀ h₁ h₂ h₃ h₄ h₅

theorem exists_of_writes {text : List Char}
    (h : Notation.Writes (.bracket lowIncluded start between stop highIncluded) text) :
    ∃ seg : Segmentation, seg.Spells lowIncluded start between stop highIncluded ∧
      seg.text = text := by
  cases h with
  | @bracket _ _ _ _ _ s t gap₀ gap₁ gap₂ gap₃ gap₄ gap₅ hstart hstop h₀ h₁ h₂ h₃ h₄ h₅ =>
    let seg : Segmentation := {
      before := gap₀, opening := Notation.openChar lowIncluded, afterOpening := gap₁
      start := s, afterStart := gap₂, between := Notation.betweenText between
      beforeStop := gap₃, stop := t, afterStop := gap₄
      closing := Notation.closeChar highIncluded, after := gap₅ }
    refine ⟨seg, ⟨rfl, hstart, rfl, hstop, rfl, ?_⟩, rfl⟩
    simp [seg, h₀, h₁, h₂, h₃, h₄, h₅]

/-! ### Uniqueness -/

/-- A gap ends where something else stands. -/
theorem gap_unique {g g' r r' : List Char} (hg : Notation.Gap g) (hg' : Notation.Gap g')
    (hr : Bounded Notation.isSpace r) (hr' : Bounded Notation.isSpace r')
    (h : g ++ r = g' ++ r') : g = g' ∧ r = r' := by
  have hrest : r = r' := by
    rw [← Notation.skip_gap hg hr, h, Notation.skip_gap hg' hr']
  rw [hrest] at h
  exact ⟨List.append_cancel_right h, hrest⟩

/-- **A text has one segmentation at most.** Its tokens are those of the one notation that it
writes, and each gap ends where the next token stands. -/
theorem unique {other : Segmentation} (h : seg.Valid) (h' : other.Valid)
    (htext : seg.text = other.text) : seg = other := by
  obtain ⟨lowIncluded, start, between, stop, highIncluded, h⟩ := valid_iff.mp h
  obtain ⟨lowIncluded', start', between', stop', highIncluded', h'⟩ := valid_iff.mp h'
  have hwritten := h.writes.unique (htext ▸ h'.writes)
  cases hwritten
  have hstart : seg.start = other.start := h.start.text_unique h'.start
  have hstop : seg.stop = other.stop := h.stop.text_unique h'.stop
  have hopening := h.opening.trans h'.opening.symm
  have hclosing := h.closing.trans h'.closing.symm
  have hbetween := h.between.trans h'.between.symm
  have hgaps := h.gaps
  have hgaps' := h'.gaps
  simp only [List.forall_mem_cons, List.not_mem_nil, false_imp_iff, implies_true, and_true]
    at hgaps hgaps'
  obtain ⟨g₀, g₁, g₂, g₃, g₄, g₅⟩ := hgaps
  obtain ⟨g₀', g₁', g₂', g₃', g₄', g₅'⟩ := hgaps'
  have hfirst := h.start.exists_start
  have hlast := h.stop.exists_start
  -- from left to right: a gap on both sides, and behind it the same token
  rw [text, text, fromStart, fromStart, fromStop, fromStop, ← hstart, ← hstop, ← hopening,
    ← hclosing, ← hbetween, h.opening, h.closing, h.between] at htext
  obtain ⟨hbefore, htext⟩ :=
    gap_unique g₀ g₀' (Notation.bounded_openChar _ _) (Notation.bounded_openChar _ _) htext
  obtain ⟨hafterOpening, htext⟩ :=
    gap_unique g₁ g₁' (Notation.bounded_start hfirst _) (Notation.bounded_start hfirst _)
      (List.cons.inj htext).2
  obtain ⟨hafterStart, htext⟩ :=
    gap_unique g₂ g₂' (Notation.bounded_betweenText _ _) (Notation.bounded_betweenText _ _)
      (List.append_cancel_left htext)
  obtain ⟨hbeforeStop, htext⟩ :=
    gap_unique g₃ g₃' (Notation.bounded_start hlast _) (Notation.bounded_start hlast _)
      (List.append_cancel_left htext)
  obtain ⟨hafterStop, htext⟩ :=
    gap_unique g₄ g₄' (Notation.bounded_closeChar _ _) (Notation.bounded_closeChar _ _)
      (List.append_cancel_left htext)
  have hafter : seg.after = other.after := (List.cons.inj htext).2
  cases seg
  cases other
  simp only [mk.injEq]
  exact ⟨hbefore, hopening, hafterOpening, hstart, hafterStart, hbetween, hbeforeStop, hstop,
    hafterStop, hclosing, hafter⟩

/-! ### Greedy reading -/

/-- What follows the first number ends it. -/
theorem Spells.ends_start (h : seg.Spells lowIncluded start between stop highIncluded) :
    NumberText.Ends (seg.afterStart ++ (seg.between ++ (seg.beforeStop ++ seg.fromStop))) := by
  rw [h.between]
  exact Notation.ends_gap (h.gaps _ (by simp)) (Notation.ends_betweenText between _)

/-- What follows the second number ends it. -/
theorem Spells.ends_stop (h : seg.Spells lowIncluded start between stop highIncluded) :
    NumberText.Ends (seg.afterStop ++ seg.closing :: seg.after) := by
  rw [h.closing]
  exact Notation.ends_gap (h.gaps _ (by simp)) (Notation.ends_closeChar highIncluded _)

/-- Each number is the longest one where it starts. -/
structure Greedy (seg : Segmentation) : Prop where
  start : ∀ t, t <+: seg.fromStart → IsNumber t → t.length ≤ seg.start.length
  stop : ∀ t, t <+: seg.fromStop → IsNumber t → t.length ≤ seg.stop.length

theorem Spells.greedy (h : seg.Spells lowIncluded start between stop highIncluded) :
    seg.Greedy where
  start _ ht hnumber := h.start.length_le_of_ends h.ends_start ht hnumber
  stop _ ht hnumber := h.stop.length_le_of_ends h.ends_stop ht hnumber

/-! ### The kind of interval -/

/-- What is seen of an interval in the tokens that write it. -/
structure Fits (seg : Segmentation) (i : Interval) : Prop where
  isFloat : i.isFloat = true ↔ seg.between = [','] ∨ '.' ∈ seg.start ∨ '.' ∈ seg.stop
  low : i.lowIncluded = true ↔ seg.opening = '['
  high : i.highIncluded = true ↔ seg.closing = ']'

/-- The tokens are about floating-point numbers where their notation is. -/
theorem Spells.isFloat_iff (h : seg.Spells lowIncluded start between stop highIncluded) :
    Notation.isFloat start between stop = true ↔
      seg.between = [','] ∨ '.' ∈ seg.start ∨ '.' ∈ seg.stop := by
  have hcomma : between = .comma ↔ seg.between = [','] := by
    rw [h.between]
    exact Notation.betweenText_inj.symm
  rw [Notation.isFloat, Bool.or_eq_true, Bool.or_eq_true, beq_iff_eq, hcomma,
    h.start.point_mem_iff, h.stop.point_mem_iff, or_assoc]

theorem Spells.parse?_text (h : seg.Spells lowIncluded start between stop highIncluded) :
    parse? seg.text =
      some (Notation.value (.bracket lowIncluded start between stop highIncluded)) := by
  rw [parse?, Notation.ofText?_of_writes h.writes, Option.map_some]

/-- **The kind of interval is seen from the tokens**: a comma or a point make it one of
floating-point numbers, and the brackets alone say what is included. -/
theorem Spells.fits (h : seg.Spells lowIncluded start between stop highIncluded) {i : Interval}
    (hi : parse? seg.text = some (.ok i)) : seg.Fits i := by
  rw [h.parse?_text] at hi
  have hvalue := Option.some.inj hi
  have hshaped : Shaped i (Notation.isFloat start between stop) lowIncluded highIncluded := by
    simp only [Notation.value] at hvalue
    split at hvalue
    · next hfloat =>
      rw [hfloat]
      exact Notation.shaped_of_floatValue hvalue
    · next hint =>
      rw [Bool.eq_false_iff.mpr hint]
      exact Notation.shaped_of_intValue hvalue
  refine ⟨?_, ?_, ?_⟩
  · rw [hshaped.isFloat]
    exact h.isFloat_iff
  · rw [hshaped.low, h.opening]
    cases lowIncluded <;> decide
  · rw [hshaped.high, h.closing]
    cases highIncluded <;> decide

/-- An equals sign behind the dots changes nothing. -/
theorem Spells.parse?_dots (h : seg.Spells lowIncluded start .dots stop highIncluded) :
    parse? { seg with between := ['.', '.', '='] }.text = parse? seg.text := by
  have hequal : Spells { seg with between := ['.', '.', '='] } lowIncluded start .dotsEqual stop
      highIncluded := ⟨h.opening, h.start, rfl, h.stop, h.closing, h.gaps⟩
  rw [hequal.parse?_text, h.parse?_text]
  rfl

end Segmentation

/-- **The recognizer finds the bracket form in the texts that can be cut into its tokens**, and
these can be cut in one way only. It reads the numbers that greedy reading takes and what the
tokens say; and where it gives an interval, its kind is seen from them. -/
theorem brackets_recognized (text : List Char) :
    ((Notation.ofBracket? text).isSome = true ↔
      ∃ seg : Segmentation, seg.Valid ∧ seg.text = text) ∧
    ∀ seg : Segmentation, seg.Valid → seg.text = text →
      (∀ other : Segmentation, other.Valid → other.text = text → other = seg) ∧
      seg.Greedy ∧
      (∃ lowIncluded start between stop highIncluded,
        seg.Spells lowIncluded start between stop highIncluded ∧
        Notation.ofBracket? text = some (.bracket lowIncluded start between stop highIncluded) ∧
        parse? text =
          some (Notation.value (.bracket lowIncluded start between stop highIncluded))) ∧
      (∀ i, parse? text = some (.ok i) → seg.Fits i) ∧
      (seg.between = ['.', '.'] →
        parse? { seg with between := ['.', '.', '='] }.text = parse? text) := by
  constructor
  · constructor
    · intro hsome
      obtain ⟨written, hwritten⟩ := Option.isSome_iff_exists.mp hsome
      obtain ⟨lowIncluded, start, between, stop, highIncluded, rfl, hwrites⟩ :=
        Notation.exists_bracket hwritten
      obtain ⟨seg, hspells, htext⟩ := Segmentation.exists_of_writes hwrites
      exact ⟨seg, Segmentation.valid_iff.mpr ⟨_, _, _, _, _, hspells⟩, htext⟩
    · rintro ⟨seg, hvalid, rfl⟩
      obtain ⟨lowIncluded, start, between, stop, highIncluded, h⟩ :=
        Segmentation.valid_iff.mp hvalid
      rw [Notation.ofBracket?_of_writes h.writes]
      rfl
  · rintro seg hvalid rfl
    obtain ⟨lowIncluded, start, between, stop, highIncluded, h⟩ :=
      Segmentation.valid_iff.mp hvalid
    refine ⟨fun other hother htext => Segmentation.unique hother hvalid htext, h.greedy,
      ⟨lowIncluded, start, between, stop, highIncluded, h, Notation.ofBracket?_of_writes h.writes,
        h.parse?_text⟩, fun i hi => h.fits hi, ?_⟩
    intro hdots
    obtain rfl : between = .dots := Notation.betweenText_inj.mp (h.between.symm.trans hdots)
    exact h.parse?_dots

/-- Three dots are two of them and the point of a number, behind a gap too. -/
theorem brackets_recognized_three_dots :
    let seg : Segmentation := {
      before := [' '], opening := '[', afterOpening := [], start := ['.', '5'], afterStart := []
      between := ['.', '.'], beforeStop := [], stop := ['.', '7', '5'], afterStop := ['\t']
      closing := ')', after := [] }
    seg.Valid ∧ seg.text = " [.5...75\t)".toList ∧
      (∀ other : Segmentation, other.Valid → other.text = " [.5...75\t)".toList → other = seg) ∧
      ∃ i, parse? " [.5...75\t)".toList = some (.ok i) ∧ i.isFloat = true ∧ seg.Fits i := by
  intro seg
  have hvalid : seg.Valid := by
    refine ⟨.inl rfl, ⟨[], ['.'], ['5'], .inl rfl, .inr ⟨[], ?_, rfl⟩, ?_, nofun, rfl⟩,
      .inr (.inr rfl), ⟨[], ['.'], ['7', '5'], .inl rfl, .inr ⟨[], ?_, rfl⟩, ?_, nofun, rfl⟩,
      .inr rfl, ?_⟩
    all_goals decide
  obtain ⟨hunique, -, -, hfits, -⟩ := (brackets_recognized _).2 seg hvalid rfl
  have hread : (parse? seg.text).bind (·.toOption.map isFloat) = some true := by decide +kernel
  obtain ⟨value, hvalue, hkind⟩ := Option.bind_eq_some_iff.mp hread
  cases value with
  | error refused => cases hkind
  | ok i => exact ⟨hvalid, rfl, hunique, i, hvalue, Option.some.inj hkind, hfits i hvalue⟩

end Lots.Interval
