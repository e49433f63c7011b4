import Lots.Sample
import Lots.Text.Blank

/-!
# Lots — values that can be entries

The value of a sample is a text that an entry can have: it is not empty, and stripping leaves
it alone. Of a sample that is a text this is as true as of the entry it came from. Every
other value is written without blanks, whatever was drawn: digits, letters, signs, points and
hyphens.

* **`Text.Unblank`** — texts without blanks; they are put together and taken apart freely.
* **`Sample.value_ne_nil`**, **`Sample.unblank_value`** — the values of all samples but texts.
-/

namespace Lots

namespace Text

/-- A text without blank characters. -/
def Unblank (s : List Char) : Prop :=
  ∀ c ∈ s, isBlank c = false

@[simp] theorem unblank_nil : Unblank [] := nofun

@[simp] theorem unblank_cons {c : Char} {s : List Char} :
    Unblank (c :: s) ↔ isBlank c = false ∧ Unblank s :=
  List.forall_mem_cons

@[simp] theorem unblank_append {s t : List Char} :
    Unblank (s ++ t) ↔ Unblank s ∧ Unblank t :=
  List.forall_mem_append

theorem unblank_of_all {s : List Char} (h : s.all (!isBlank ·) = true) : Unblank s := by
  intro c hc
  simpa using List.all_eq_true.mp h c hc

theorem Unblank.subset {s t : List Char} (ht : Unblank t) (h : s ⊆ t) : Unblank s :=
  fun c hc => ht c (h hc)

theorem Unblank.stripped {s : List Char} (h : Unblank s) : Stripped s where
  head c hc := h c (List.mem_of_head? hc)
  last c hc := h c (List.mem_of_getLast? hc)

end Text

open Text (Unblank)

/-! ## Digits -/

namespace Numeral

/-- Digits are written with the letters and digits that `Nat.digitChar` knows. -/
theorem exists_digitChar {b n : Nat} {c : Char} (hb : 1 < b) (h : c ∈ Nat.toDigits b n) :
    ∃ d, c = Nat.digitChar d := by
  induction n using Nat.strongRecOn with
  | ind n ih =>
    rw [Nat.toDigits_eq_if hb] at h
    split at h
    · exact ⟨n, List.mem_singleton.mp h⟩
    · next hlarge =>
      rcases List.mem_append.mp h with hfront | hlast
      · exact ih (n / b) (Nat.div_lt_self (by omega) hb) hfront
      · exact ⟨n % b, List.mem_singleton.mp hlast⟩

/-- Beyond the hexadecimal digits there is one character for all. -/
theorem digitChar_of_le {d : Nat} (h : 16 ≤ d) : Nat.digitChar d = '*' := by
  obtain ⟨k, rfl⟩ : ∃ k, d = k + 16 := ⟨d - 16, by omega⟩
  rfl

theorem isBlank_digitChar (d : Nat) :
    Text.isBlank (Nat.digitChar d) = false ∧ Text.isBlank (Nat.digitChar d).toUpper = false := by
  rcases Nat.lt_or_ge d 16 with hd | hd
  · have hall : ∀ e < 16, Text.isBlank (Nat.digitChar e) = false ∧
        Text.isBlank (Nat.digitChar e).toUpper = false := by decide
    exact hall d hd
  · rw [digitChar_of_le hd]
    decide

theorem unblank_text (n : Nat) : Unblank (text n) := by
  intro c hc
  obtain ⟨d, rfl⟩ := exists_digitChar (by decide) hc
  exact (isBlank_digitChar d).1

theorem text_ne_nil (n : Nat) : text n ≠ [] :=
  Nat.toDigits_ne_nil

theorem unblank_intText (z : Int) : Unblank (intText z) := by
  have hminus : Text.isBlank '-' = false := by decide
  unfold intText
  split
  · exact Text.unblank_cons.mpr ⟨hminus, unblank_text _⟩
  · exact unblank_text _

theorem intText_ne_nil (z : Int) : intText z ≠ [] := by
  unfold intText
  split
  · exact List.cons_ne_nil _ _
  · exact text_ne_nil _

/-- Hexadecimal digits are no blanks, in lower case or in upper case. -/
theorem isBlank_hexText {width n : Nat} {c : Char} (h : c ∈ hexText width n) :
    Text.isBlank c = false ∧ Text.isBlank c.toUpper = false := by
  rcases List.mem_append.mp h with hzero | hdigit
  · rw [List.eq_of_mem_replicate hzero]
    decide
  · obtain ⟨d, rfl⟩ := exists_digitChar (by decide) hdigit
    exact isBlank_digitChar d

end Numeral

/-! ## Floating-point numbers -/

namespace Binary64

theorem unblank_zeros (count : Nat) : Unblank (zeros count) := by
  intro c hc
  rw [List.eq_of_mem_replicate hc]
  decide

theorem unblank_significant {digits : List Char} (h : Unblank digits) :
    Unblank (significant digits) := by
  unfold significant
  split
  · exact unblank_zeros 1
  · apply h.subset
    intro c hc
    exact List.mem_reverse.mp ((List.dropWhile_suffix _).subset (List.mem_reverse.mp hc))

theorem unblank_positional {digits : List Char} (h : Unblank digits) (power : Int) :
    Unblank (positional digits power) := by
  have hzero : Text.isBlank '0' = false := by decide
  have hpoint : Text.isBlank '.' = false := by decide
  have htake : ∀ n, Unblank (digits.take n) := fun n => h.subset (List.take_subset n digits)
  have hdrop : ∀ n, Unblank (digits.drop n) := fun n => h.subset (List.drop_subset n digits)
  unfold positional
  split
  · simp [hzero, hpoint, unblank_zeros, h]
  · dsimp only
    split
    · simp [hzero, hpoint, unblank_zeros, htake]
    · simp [hpoint, unblank_zeros, htake, hdrop]

theorem positional_ne_nil (digits : List Char) (power : Int) : positional digits power ≠ [] := by
  unfold positional
  split <;> simp

theorem unblank_exponential {digits : List Char} (h : Unblank digits) (power : Int) :
    Unblank (exponential digits power) := by
  have hpoint : Text.isBlank '.' = false := by decide
  have hletter : Text.isBlank 'e' = false := by decide
  have hsign : Text.isBlank (if power < 0 then '-' else '+') = false := by
    split <;> decide
  have hexponent := Numeral.unblank_text power.natAbs
  unfold exponential
  split
  · next first second rest =>
    simp only [Text.unblank_cons] at h
    simp [hpoint, hletter, hsign, unblank_zeros, hexponent, h]
  · simp [hletter, hsign, unblank_zeros, hexponent, h]

theorem exponential_ne_nil (digits : List Char) (power : Int) :
    exponential digits power ≠ [] := by
  unfold exponential
  simp

theorem unblank_unitsText (units : Nat) : Unblank (unitsText units) := by
  have hinf : Unblank ['i', 'n', 'f'] := Text.unblank_of_all (by decide)
  have hzero : Unblank ['0', '.', '0'] := Text.unblank_of_all (by decide)
  unfold unitsText
  split
  · exact hinf
  split
  · exact hzero
  · have hdigits := unblank_significant (Numeral.unblank_text (shortest units).value)
    dsimp only
    split
    · exact unblank_positional hdigits _
    · exact unblank_exponential hdigits _

theorem unitsText_ne_nil (units : Nat) : unitsText units ≠ [] := by
  unfold unitsText
  split
  · exact List.cons_ne_nil _ _
  split
  · exact List.cons_ne_nil _ _
  · dsimp only
    split
    · exact positional_ne_nil _ _
    · exact exponential_ne_nil _ _

theorem unblank_text (x : Binary64) : Unblank x.text := by
  have hminus : Text.isBlank '-' = false := by decide
  unfold text
  split
  · exact Text.unblank_cons.mpr ⟨hminus, unblank_unitsText x.units⟩
  · exact unblank_unitsText x.units

theorem text_ne_nil (x : Binary64) : x.text ≠ [] := by
  unfold text
  split
  · exact List.cons_ne_nil _ _
  · exact unitsText_ne_nil x.units

end Binary64

/-! ## Samples -/

namespace Sample

theorem unblank_componentText (n : Nat) : Unblank (componentText n) := by
  intro c hc
  obtain ⟨d, hd, rfl⟩ := List.mem_map.mp hc
  exact (Numeral.isBlank_hexText hd).2

theorem unblank_uuidText (bytes : List Nat) : Unblank (uuidText bytes) := by
  have hhyphen : Text.isBlank '-' = false := by decide
  have hgroup : ∀ group : List Nat, Unblank (group.flatMap (Numeral.hexText 2)) := by
    intro group c hc
    obtain ⟨byte, -, hbyte⟩ := List.mem_flatMap.mp hc
    exact (Numeral.isBlank_hexText hbyte).1
  simp [uuidText, List.intercalate, List.intersperse, hhyphen, hgroup]

theorem uuidText_ne_nil (bytes : List Nat) : uuidText bytes ≠ [] := by
  simp [uuidText, List.intercalate, List.intersperse]

/-- A value that is no text is written without blanks. -/
theorem unblank_value {sample : Sample} (h : ∀ t, sample ≠ .text t) : Unblank sample.value := by
  cases sample with
  | text t => exact absurd rfl (h t)
  | coin heads =>
    apply Text.unblank_of_all
    cases heads <;> decide
  | color red green blue =>
    have hmark : Text.isBlank '#' = false := by decide
    simp [value, hmark, unblank_componentText]
  | uuid bytes => exact unblank_uuidText bytes
  | roll outcome => exact Numeral.unblank_intText outcome.total
  | interval interval number =>
    cases number with
    | int z => exact Numeral.unblank_intText z
    | float x => exact x.unblank_text

/-- A value that is no text is not empty. -/
theorem value_ne_nil {sample : Sample} (h : ∀ t, sample ≠ .text t) : sample.value ≠ [] := by
  cases sample with
  | text t => exact absurd rfl (h t)
  | coin heads => cases heads <;> decide
  | color red green blue => exact List.cons_ne_nil _ _
  | uuid bytes => exact uuidText_ne_nil bytes
  | roll outcome => exact Numeral.intText_ne_nil outcome.total
  | interval interval number =>
    cases number with
    | int z => exact Numeral.intText_ne_nil z
    | float x => exact x.text_ne_nil

end Sample

end Lots
