import Lots.Numeral

/-!
# Lots — runs of characters of one kind

A recognizer takes as many characters of a kind as there are. Where a run of them is followed
by a character of another kind, or by nothing, it takes that run and leaves what follows.

* **`Text.Digits`** — texts of digits; a written number is one (`Numeral.digits_text`).
* **`Text.Bounded`** — what may stand behind a run, so that the run ends there; a text is known
  to be so by the characters it may start with (`Text.StartsIn`).
* **`Text.takeWhile_run`**, **`Text.dropWhile_run`** — a bounded run is taken as a whole.
* **`Text.Marked`** — what stands behind the first digits of a text; texts that are marked
  differently are different (`Text.Marked.disjoint`).
-/

namespace Lots

namespace Text

/-- A text of decimal digits. -/
def Digits (s : List Char) : Prop :=
  ∀ c ∈ s, c.isDigit = true

instance (s : List Char) : Decidable (Digits s) :=
  decidable_of_iff (s.all Char.isDigit = true) List.all_eq_true

theorem digits_nil : Digits [] := nofun

theorem Digits.not_mem {s : List Char} (h : Digits s) {c : Char} (hc : c.isDigit = false) :
    c ∉ s := by
  intro hmem
  rw [h c hmem] at hc
  cases hc

theorem digits_takeWhile (s : List Char) : Digits (s.takeWhile Char.isDigit) :=
  List.all_eq_true.mp List.all_takeWhile

/-- A text that does not go on with a character of a kind. -/
def Bounded (p : Char → Bool) (rest : List Char) : Prop :=
  ∀ c ∈ rest.head?, p c = false

variable {p : Char → Bool} {s rest : List Char}

theorem bounded_nil : Bounded p [] := nofun

theorem bounded_cons {c : Char} (h : p c = false) : Bounded p (c :: rest) := by
  rintro d ⟨⟩
  exact h

theorem takeWhile_run (hs : ∀ c ∈ s, p c = true) (hrest : Bounded p rest) :
    (s ++ rest).takeWhile p = s := by
  rw [List.takeWhile_append_of_pos hs]
  cases rest with
  | nil => simp
  | cons c rest => simp [hrest c rfl]

theorem dropWhile_run (hs : ∀ c ∈ s, p c = true) (hrest : Bounded p rest) :
    (s ++ rest).dropWhile p = rest := by
  rw [List.dropWhile_append_of_pos hs]
  cases rest with
  | nil => rfl
  | cons c rest => simp [hrest c rfl]

/-- A text that is empty or starts with one of these characters. -/
def StartsIn (first text : List Char) : Prop :=
  ∀ c ∈ text.head?, c ∈ first

theorem StartsIn.bounded {first text : List Char} (h : StartsIn first text)
    (hfirst : first.any p = false) : Bounded p text := by
  intro c hc
  have hnot := List.any_eq_false.mp hfirst c (h c hc)
  simpa using hnot

/-! ### The first mark -/

/-- Behind the digits that the text starts with stands one of these characters. -/
def Marked (marks text : List Char) : Prop :=
  ∃ mark ∈ marks, (text.dropWhile Char.isDigit).head? = some mark

theorem Marked.cons {marks text : List Char} {c : Char} (hc : c ∈ marks)
    (hdigit : c.isDigit = false) : Marked marks (c :: text) :=
  ⟨c, hc, by simp [hdigit]⟩

theorem Marked.run {marks digits text : List Char} {c : Char} (hdigits : Digits digits)
    (hc : c ∈ marks) (hdigit : c.isDigit = false) : Marked marks (digits ++ c :: text) :=
  ⟨c, hc, by rw [dropWhile_run hdigits (bounded_cons hdigit), List.head?_cons]⟩

/-- The first mark tells texts apart. -/
theorem Marked.disjoint {marks others text : List Char} (h : Marked marks text)
    (h' : Marked others text) (hdisjoint : marks.any (· ∈ others) = false) : False := by
  obtain ⟨mark, hmark, hhead⟩ := h
  obtain ⟨other, hother, hhead'⟩ := h'
  rw [hhead] at hhead'
  cases hhead'
  exact List.any_eq_false.mp hdisjoint mark hmark (decide_eq_true hother)

end Text

namespace Numeral

theorem digits_text (n : Nat) : Text.Digits (text n) :=
  fun _ hc => Nat.isDigit_of_mem_toDigits (by decide) (by decide) hc

/-- The first digit of a positive number is no zero. -/
theorem head?_text {n : Nat} (h : 0 < n) : (text n).head? ≠ some '0' := by
  unfold text
  induction n using Nat.strongRecOn with
  | ind n ih =>
    rw [Nat.toDigits_eq_if (by decide)]
    split
    · simp only [List.head?_cons, ne_eq, Option.some.injEq, Nat.digitChar_eq_zero]
      omega
    · have hfront := ih (n / 10) (by omega) (by omega)
      obtain ⟨c, rest, hcons⟩ := List.exists_cons_of_ne_nil (@Nat.toDigits_ne_nil (n / 10) 10)
      rw [hcons] at hfront ⊢
      exact hfront

theorem ofChar?_toChar (sign : Sign) : Sign.ofChar? sign.toChar = some sign := by
  cases sign <;> rfl

theorem toChar_of_ofChar? {c : Char} {sign : Sign} (h : Sign.ofChar? c = some sign) :
    c = sign.toChar := by
  unfold Sign.ofChar? at h
  split at h
  all_goals cases h
  all_goals rfl

theorem ofChar?_of_isDigit {c : Char} (h : c.isDigit = true) : Sign.ofChar? c = none := by
  cases hsign : Sign.ofChar? c with
  | none => rfl
  | some sign =>
    rw [toChar_of_ofChar? hsign] at h
    cases sign <;> cases h

end Numeral

end Lots
