import Lots.Line

/-!
# Lots — trimmed texts

A slice of a line is stripped before it becomes an entry, and if it is one string, the quotes come
off and its contents are stripped as well. Nothing is left to be trimmed then: the contents of a
string hold no quote, so what comes out of one is no string again.

* **`OneString`** — a text with quotes at both ends and nowhere else; it is a text between quotes
  (`oneString_iff_quote`), and what the trimming looks for (`isString_iff_oneString`).
* **`trim_of_oneString`**, **`trim_of_not_oneString`** — the two things that trimming can do.
* **`trim_eq_self_iff`** — the texts that trimming leaves alone: stripped ones that are no string.
* **`trim_append_quote`** — of a text between quotes, and blanks around these, trimming leaves the
  text without its blanks.
-/

namespace Lots.Line

variable {s t : List Char}

/-! ## Strings -/

/-- The text between quotes. -/
def quote (text : List Char) : List Char :=
  '"' :: (text ++ ['"'])

theorem inner_quote (text : List Char) : inner (quote text) = text := by
  simp [inner, quote]

theorem stripped_quote (text : List Char) : Text.Stripped (quote text) where
  head c hc := by
    obtain rfl : '"' = c := by simpa [quote] using hc
    decide
  last c hc := by
    obtain rfl : '"' = c := by simpa [quote, List.getLast?_cons] using hc
    decide

theorem count_quote (text : List Char) : (quote text).count '"' = text.count '"' + 2 := by
  simp [quote]

/-- A text is one string: quotes are its first and its last character, which are not the same
one, and there is no other quote. -/
structure OneString (s : List Char) : Prop where
  two_le : 2 ≤ s.length
  head : s.head? = some '"'
  last : s.getLast? = some '"'
  no_other : '"' ∉ inner s

/-- What starts and ends with a quote is a text between quotes. -/
theorem quote_inner (htwo : 2 ≤ s.length) (hhead : s.head? = some '"')
    (hlast : s.getLast? = some '"') : quote (inner s) = s := by
  cases s with
  | nil => cases hhead
  | cons first rest =>
    obtain rfl : first = '"' := Option.some.inj hhead
    rcases List.eq_nil_or_concat rest with rfl | ⟨text, last, rfl⟩
    · exact absurd htwo (by decide)
    · rw [List.concat_eq_append] at hlast ⊢
      obtain rfl : last = '"' := by simpa [List.getLast?_cons] using hlast
      exact congrArg quote (inner_quote text)

theorem oneString_quote {text : List Char} (h : '"' ∉ text) : OneString (quote text) where
  two_le := by simp [quote]
  head := rfl
  last := by simp [quote, List.getLast?_cons]
  no_other := by rwa [inner_quote]

theorem oneString_iff_quote : OneString s ↔ ∃ text, '"' ∉ text ∧ quote text = s := by
  constructor
  · intro h
    exact ⟨inner s, h.no_other, quote_inner h.two_le h.head h.last⟩
  · rintro ⟨text, htext, rfl⟩
    exact oneString_quote htext

/-- Counting the quotes tells a string: there are two of them, one at each end. -/
theorem isString_iff_oneString : isString s = true ↔ OneString s := by
  simp only [isString, Bool.and_eq_true, beq_iff_eq]
  constructor
  · rintro ⟨⟨hhead, hlast⟩, hcount⟩
    have htwo : 2 ≤ s.length := hcount ▸ List.count_le_length
    refine ⟨htwo, hhead, hlast, List.count_eq_zero.mp ?_⟩
    rw [← quote_inner htwo hhead hlast, count_quote] at hcount
    omega
  · intro h
    obtain ⟨text, htext, rfl⟩ := oneString_iff_quote.mp h
    refine ⟨⟨h.head, h.last⟩, ?_⟩
    rw [count_quote, List.count_eq_zero.mpr htext]

instance : Decidable (OneString s) :=
  decidable_of_iff (isString s = true) isString_iff_oneString

/-- A quote alone does not make a string, and neither do three. -/
example : ¬ OneString ['"'] ∧ ¬ OneString "\"a\"b\"".toList := by
  decide

/-! ## What trimming does -/

theorem trim_of_oneString (h : OneString (Text.strip t)) :
    trim t = Text.strip (inner (Text.strip t)) :=
  if_pos (isString_iff_oneString.mpr h)

theorem trim_of_not_oneString (h : ¬ OneString (Text.strip t)) : trim t = Text.strip t :=
  if_neg fun hstring => h (isString_iff_oneString.mp hstring)

theorem stripped_trim (t : List Char) : Text.Stripped (trim t) := by
  by_cases h : OneString (Text.strip t)
  · rw [trim_of_oneString h]
    exact Text.stripped_strip _
  · rw [trim_of_not_oneString h]
    exact Text.stripped_strip t

theorem inner_isInfix (s : List Char) : inner s <:+: s :=
  (List.dropLast_prefix _).isInfix.trans (List.tail_suffix _).isInfix

/-- Trimming leaves a piece of the text. -/
theorem trim_isInfix (t : List Char) : trim t <:+: t := by
  have hstrip := Text.strip_isInfix t
  by_cases h : OneString (Text.strip t)
  · rw [trim_of_oneString h]
    exact ((Text.strip_isInfix _).trans (inner_isInfix _)).trans hstrip
  · rwa [trim_of_not_oneString h]

/-- No quote remains of a string. -/
theorem quote_not_mem_trim (h : OneString (Text.strip t)) : '"' ∉ trim t := by
  rw [trim_of_oneString h]
  intro hmem
  exact h.no_other ((Text.strip_isInfix _).subset hmem)

/-- What is trimmed is no string, even if it was one. -/
theorem not_oneString_trim (t : List Char) : ¬ OneString (trim t) := by
  by_cases h : OneString (Text.strip t)
  · intro htrim
    exact quote_not_mem_trim h (List.mem_of_head? htrim.head)
  · rwa [trim_of_not_oneString h]

/-- The texts that trimming leaves alone are stripped and no strings. -/
theorem trim_eq_self_iff : trim s = s ↔ Text.Stripped s ∧ ¬ OneString s := by
  constructor
  · intro h
    exact h ▸ ⟨stripped_trim s, not_oneString_trim s⟩
  · rintro ⟨hstripped, hstring⟩
    have hstrip : Text.strip s = s := Text.strip_eq_self_iff.mpr hstripped
    rw [trim_of_not_oneString (by rwa [hstrip]), hstrip]

/-- Trimming is done at once. -/
theorem trim_trim (t : List Char) : trim (trim t) = trim t :=
  trim_eq_self_iff.mpr ⟨stripped_trim t, not_oneString_trim t⟩

/-! ## Quotes that come off -/

/-- Blanks are no quotes, so stripping takes none away. -/
theorem count_strip (t : List Char) : (Text.strip t).count '"' = t.count '"' := by
  obtain ⟨before, after, hbefore, hafter, happend⟩ := Text.exists_append_strip t
  have hnone : ∀ blanks : List Char, (∀ c ∈ blanks, Text.isBlank c = true) →
      blanks.count '"' = 0 := by
    intro blanks hblanks
    refine List.count_eq_zero.mpr fun hmem => ?_
    exact absurd (hblanks '"' hmem) (by decide)
  calc (Text.strip t).count '"'
      = (before ++ Text.strip t ++ after).count '"' := by
        rw [List.count_append, List.count_append, hnone before hbefore, hnone after hafter,
          Nat.zero_add, Nat.add_zero]
    _ = t.count '"' := by rw [happend]

/-- Quotes come off a string, and off nothing else. -/
theorem count_trim_lt_iff : (trim t).count '"' < t.count '"' ↔ OneString (Text.strip t) := by
  constructor
  · intro hless
    by_cases h : OneString (Text.strip t)
    · exact h
    · rw [trim_of_not_oneString h, count_strip] at hless
      exact absurd hless (Nat.lt_irrefl _)
  · intro h
    have hnone : (trim t).count '"' = 0 := List.count_eq_zero.mpr (quote_not_mem_trim h)
    obtain ⟨text, -, hquote⟩ := oneString_iff_quote.mp h
    have htwo : t.count '"' = text.count '"' + 2 := by
      rw [← count_strip, ← hquote, count_quote]
    omega

/-- Of a text between quotes, trimming leaves the text without its blanks, whatever blanks are
around the quotes. -/
theorem trim_append_quote {before text after : List Char}
    (hbefore : ∀ c ∈ before, Text.isBlank c = true) (htext : '"' ∉ text)
    (hafter : ∀ c ∈ after, Text.isBlank c = true) :
    trim (before ++ quote text ++ after) = Text.strip text := by
  have hstrip : Text.strip (before ++ quote text ++ after) = quote text :=
    Text.strip_append hbefore hafter (stripped_quote text)
  have hstring : OneString (Text.strip (before ++ quote text ++ after)) := by
    rw [hstrip]
    exact oneString_quote htext
  rw [trim_of_oneString hstring, hstrip, inner_quote]

end Lots.Line
