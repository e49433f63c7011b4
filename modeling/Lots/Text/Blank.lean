/-!
# Lots — blank characters

`isBlank` is the one notion of blank text in this library, and `strip` removes
blank characters from both ends of a text. Blank is wider than ASCII: the
information separators U+001C to U+001F and the Unicode spaces belong to it.

`strip_eq_self_iff` says which texts are already stripped, and `strip_strip`
that stripping is done at once. `exists_append_strip` and `strip_append` say that
it takes away the blanks around a text, all of them and nothing else.
-/

namespace Lots.Text

/-- Blank characters: the ASCII controls that move the cursor, the four
information separators, the space, the next-line control, and every Unicode
space, line separator and paragraph separator. -/
def isBlank (c : Char) : Bool :=
  let n := c.toNat
  (0x09 ≤ n && n ≤ 0x0D) || (0x1C ≤ n && n ≤ 0x20) || n == 0x85 || n == 0xA0 ||
  n == 0x1680 || (0x2000 ≤ n && n ≤ 0x200A) || n == 0x2028 || n == 0x2029 ||
  n == 0x202F || n == 0x205F || n == 0x3000

/-- A text without its leading blank characters. -/
def stripStart (s : List Char) : List Char :=
  s.dropWhile isBlank

/-- A text without its trailing blank characters. -/
def stripEnd (s : List Char) : List Char :=
  (s.reverse.dropWhile isBlank).reverse

/-- A text without the blank characters at its two ends. -/
def strip (s : List Char) : List Char :=
  stripEnd (stripStart s)

/-! ## Stripped texts -/

/-- A text whose first and last characters, if any, are not blank. -/
structure Stripped (s : List Char) : Prop where
  head : ∀ c ∈ s.head?, isBlank c = false
  last : ∀ c ∈ s.getLast?, isBlank c = false

theorem head?_stripStart {s : List Char} {c : Char} (h : c ∈ (stripStart s).head?) :
    isBlank c = false := by
  have := List.head?_dropWhile_not isBlank s
  simp_all [stripStart]

theorem getLast?_stripEnd {s : List Char} {c : Char} (h : c ∈ (stripEnd s).getLast?) :
    isBlank c = false := by
  have := List.head?_dropWhile_not isBlank s.reverse
  simp_all [stripEnd]

/-- Removing blanks at the end leaves an initial part of the text. -/
theorem stripEnd_isPrefix (s : List Char) : stripEnd s <+: s := by
  have h : s.reverse.dropWhile isBlank <:+ s.reverse := List.dropWhile_suffix _
  simpa [stripEnd] using List.reverse_prefix.mpr h

/-- Stripping leaves a piece of the text. -/
theorem strip_isInfix (s : List Char) : strip s <:+: s :=
  (stripEnd_isPrefix _).isInfix.trans (List.dropWhile_suffix _).isInfix

theorem stripped_strip (s : List Char) : Stripped (strip s) where
  head c hc := by
    obtain ⟨t, ht⟩ := stripEnd_isPrefix (stripStart s)
    cases h : strip s with
    | nil => simp [h] at hc
    | cons a r =>
      -- the stripped text starts where the text without leading blanks does
      rw [strip] at h
      rw [h] at ht
      have hca : c = a := by simpa [strip, h] using hc.symm
      exact head?_stripStart (by rw [← ht, hca]; simp)
  last _ hc := getLast?_stripEnd hc

theorem stripStart_eq_self {s : List Char} (h : ∀ c ∈ s.head?, isBlank c = false) :
    stripStart s = s := by
  cases s with
  | nil => rfl
  | cons a r => simp [stripStart, h a (by simp)]

theorem stripEnd_eq_self {s : List Char} (h : ∀ c ∈ s.getLast?, isBlank c = false) :
    stripEnd s = s := by
  have h' : ∀ c ∈ s.reverse.head?, isBlank c = false := by rwa [List.head?_reverse]
  have hr := stripStart_eq_self h'
  rw [stripStart] at hr
  rw [stripEnd, hr, List.reverse_reverse]

/-- The texts that stripping leaves alone are the stripped ones. -/
theorem strip_eq_self_iff {s : List Char} : strip s = s ↔ Stripped s := by
  refine ⟨fun h => h ▸ stripped_strip s, fun h => ?_⟩
  rw [strip, stripStart_eq_self h.head, stripEnd_eq_self h.last]

/-- Stripping is done at once. -/
theorem strip_strip (s : List Char) : strip (strip s) = strip s :=
  strip_eq_self_iff.mpr (stripped_strip s)

/-- Nothing remains of a text that is all blank. -/
theorem strip_of_blank {s : List Char} (h : ∀ c ∈ s, isBlank c = true) : strip s = [] := by
  have hstart : stripStart s = [] := by
    induction s with
    | nil => rfl
    | cons c rest ih => simp_all [stripStart]
  rw [strip, hstart]
  rfl

/-! ## Blanks around a text -/

theorem exists_append_stripStart (s : List Char) :
    ∃ before, (∀ c ∈ before, isBlank c = true) ∧ before ++ stripStart s = s :=
  ⟨s.takeWhile isBlank, List.all_eq_true.mp List.all_takeWhile, List.takeWhile_append_dropWhile⟩

theorem exists_stripEnd_append (s : List Char) :
    ∃ after, (∀ c ∈ after, isBlank c = true) ∧ stripEnd s ++ after = s := by
  obtain ⟨before, hbefore, happend⟩ := exists_append_stripStart s.reverse
  refine ⟨before.reverse, by simpa using hbefore, ?_⟩
  rw [← List.reverse_inj, List.reverse_append, List.reverse_reverse]
  simpa [stripEnd, stripStart] using happend

/-- Stripping takes away blanks, and nothing else. -/
theorem exists_append_strip (s : List Char) :
    ∃ before after, (∀ c ∈ before, isBlank c = true) ∧ (∀ c ∈ after, isBlank c = true) ∧
      before ++ strip s ++ after = s := by
  obtain ⟨before, hbefore, hstart⟩ := exists_append_stripStart s
  obtain ⟨after, hafter, hend⟩ := exists_stripEnd_append (stripStart s)
  refine ⟨before, after, hbefore, hafter, ?_⟩
  rw [strip, List.append_assoc, hend, hstart]

/-- Stripping takes away all blanks around a text. -/
theorem strip_append {before s after : List Char} (hbefore : ∀ c ∈ before, isBlank c = true)
    (hafter : ∀ c ∈ after, isBlank c = true) (hs : Stripped s) :
    strip (before ++ s ++ after) = s := by
  have hstart : stripStart (before ++ s ++ after) = stripStart (s ++ after) := by
    rw [List.append_assoc]
    exact List.dropWhile_append_of_pos hbefore
  have hend : stripEnd (s ++ after) = s := by
    have hreverse : ∀ c ∈ after.reverse, isBlank c = true := by simpa using hafter
    rw [stripEnd, List.reverse_append, List.dropWhile_append_of_pos hreverse]
    exact stripEnd_eq_self hs.last
  cases s with
  | nil => exact strip_of_blank (by simpa using List.forall_mem_append.mpr ⟨hbefore, hafter⟩)
  | cons c rest =>
    -- the text starts with a character that is not blank, so the blanks end before it
    have hkeep : stripStart (c :: rest ++ after) = c :: rest ++ after :=
      stripStart_eq_self hs.head
    rw [strip, hstart, hkeep, hend]

end Lots.Text
