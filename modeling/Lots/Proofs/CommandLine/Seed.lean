import Lots.CommandLine
import Lots.Proofs.Sample.Values
import Lots.Proofs.Text.Runs
import Mathlib.Data.List.TakeWhile

/-!
# Lots — seeds among the arguments

An integer in decimal digits, with a minus sign if it is negative, is read back where it stands
behind the seed's name: it is a plain argument, since no flag is named by a digit and a negative
number is no switch. Only its length can be against it.

* **`integer?_intText`** — a decimal integer is read as what it is, unless it is too long.
* **`classifyWord_intText`** — it is a plain argument, negative or not.
-/

namespace Lots

open Text (Digits)

theorem Text.decimalDigit?_of_isDigit {c : Char} (h : c.isDigit = true) :
    decimalDigit? c = some (c.toNat - '0'.toNat) := by
  have hrange : 48 ≤ c.toNat ∧ c.toNat ≤ 57 := by
    simpa [Char.isDigit, UInt32.le_iff_toNat_le] using h
  have hfind : decimalZeros.find? (fun base => base ≤ c.toNat && c.toNat < base + 10) = some 0x30 := by
    rw [decimalZeros, List.find?_cons_of_pos]
    simp only [Bool.and_eq_true, decide_eq_true_eq]
    omega
  rw [decimalDigit?, hfind]
  rfl

namespace CommandLine

open Numeral (digitLimit)

theorem ne_of_isDigit {c d : Char} (hc : c.isDigit = true) (hd : d.isDigit = false) : c ≠ d := by
  rintro rfl
  rw [hc] at hd
  cases hd

/-! ## Numbers -/

theorem moreDigits?_of_digits {digits : List Char} (h : Digits digits) :
    moreDigits? digits = some (digits.map fun c => c.toNat - '0'.toNat) := by
  induction digits with
  | nil => rfl
  | cons c rest ih =>
    obtain ⟨hc, hrest⟩ := List.forall_mem_cons.mp h
    have hunderscore : c ≠ '_' := ne_of_isDigit hc rfl
    rw [moreDigits?.eq_3 c rest (fun d more => fun heq => absurd heq hunderscore),
      Text.decimalDigit?_of_isDigit hc, ih hrest]
    rfl

/-- Digits are read as the number that they write. -/
theorem magnitude?_of_digits {digits : List Char} (h : Digits digits) (hne : digits ≠ []) :
    magnitude? digits =
      if digits.length ≤ digitLimit then some (Numeral.value digits) else none := by
  obtain ⟨c, rest, rfl⟩ := List.exists_cons_of_ne_nil hne
  obtain ⟨hc, hrest⟩ := List.forall_mem_cons.mp h
  have hvalue : Numeral.value (c :: rest) =
      (rest.map fun c => c.toNat - '0'.toNat).foldl (fun n digit => 10 * n + digit)
        (c.toNat - '0'.toNat) := by
    rw [Numeral.value, Nat.ofDigitChars_cons, Nat.mul_zero, Nat.zero_add, Nat.ofDigitChars,
      List.foldl_map]
  rw [hvalue]
  simp only [magnitude?, Text.decimalDigit?_of_isDigit hc, moreDigits?_of_digits hrest,
    Option.bind_eq_bind, Option.bind_some, List.length_map, List.length_cons, Nat.lt_iff_add_one_le]

theorem unpad_of_unblank {s : List Char} (h : Text.Unblank s) : unpad s = s := by
  have hpadding : ∀ c ∈ s, ¬ isPadding c = true := by
    intro c hc
    simp [isPadding, h c hc]
  have hstart : s.dropWhile isPadding = s := by
    cases s with
    | nil => rfl
    | cons c rest => exact List.dropWhile_cons_of_neg (hpadding c List.mem_cons_self)
  have hend : s.reverse.dropWhile isPadding = s.reverse := by
    cases hreverse : s.reverse with
    | nil => rfl
    | cons c rest =>
      have hmem : c ∈ s := List.mem_reverse.mp (hreverse ▸ List.mem_cons_self)
      exact List.dropWhile_cons_of_neg (hpadding c hmem)
  rw [unpad, hstart, hend, List.reverse_reverse]

/-- The decimal text of an integer, as a sign and digits. -/
theorem intText_cases (z : Int) :
    (z < 0 ∧ Numeral.intText z = '-' :: Numeral.text z.natAbs) ∨
      0 ≤ z ∧ Numeral.intText z = Numeral.text z.natAbs := by
  unfold Numeral.intText
  split
  · next hneg => exact .inl ⟨hneg, rfl⟩
  · next hneg => exact .inr ⟨Int.not_lt.mp hneg, rfl⟩

/-- **A decimal integer is read**, unless it has too many digits. -/
theorem integer?_intText (z : Int) :
    integer? (Numeral.intText z) =
      if (Numeral.text z.natAbs).length ≤ digitLimit then some z else none := by
  have hmagnitude := magnitude?_of_digits (Numeral.digits_text z.natAbs) (Numeral.text_ne_nil _)
  rw [Numeral.value_text] at hmagnitude
  have hunpad := unpad_of_unblank (Numeral.unblank_intText z)
  rcases intText_cases z with ⟨hneg, htext⟩ | ⟨hnonneg, htext⟩
  · have hvalue : Numeral.Sign.minus.apply z.natAbs = z := by
      simp only [Numeral.Sign.apply]
      omega
    rw [htext] at hunpad ⊢
    simp only [integer?, hunpad, Numeral.Sign.ofChar?, hmagnitude]
    split
    · rw [Option.map_some, hvalue]
    · rfl
  · have hvalue : Int.ofNat z.natAbs = z := Int.natAbs_of_nonneg hnonneg
    rw [htext] at hunpad ⊢
    cases hdigits : Numeral.text z.natAbs with
    | nil => exact absurd hdigits (Numeral.text_ne_nil _)
    | cons c rest =>
      have hc : c.isDigit = true :=
        Numeral.digits_text z.natAbs c (hdigits ▸ List.mem_cons_self)
      rw [hdigits] at hunpad hmagnitude
      simp only [integer?, hunpad, Numeral.ofChar?_of_isDigit hc, hmagnitude]
      split
      · rw [Option.map_some, hvalue]
      · rfl

/-! ## Arguments -/

/-- The names of switches have two dashes in front. -/
theorem Switch.dashes_name (switch : Switch) :
    ∃ more, switch.name.toList = '-' :: '-' :: more := by
  cases switch with
  | flag f => cases f <;> exact ⟨_, rfl⟩
  | setting setting =>
    cases setting with
    | seed => exact ⟨_, rfl⟩
    | separator role => cases role <;> exact ⟨_, rfl⟩

theorem Switch.named?_eq_none {text : List Char} (h : ∀ more, text ≠ '-' :: '-' :: more) :
    Switch.named? text = none := by
  apply List.find?_eq_none.mpr
  intro switch _ hname
  obtain ⟨more, hdashes⟩ := switch.dashes_name
  exact h more ((beq_iff_eq.mp hname).symm.trans hdashes)

/-- No flag is named by a digit. -/
theorem Flag.ofLetter?_of_isDigit {c : Char} (h : c.isDigit = true) : Flag.ofLetter? c = none := by
  apply List.find?_eq_none.mpr
  intro flag _ hletter
  rw [← beq_iff_eq.mp hletter] at h
  cases flag <;> cases h

theorem cutAtEquals_of_not_mem {text : List Char} (h : '=' ∉ text) :
    cutAtEquals text = (text, none) := by
  have hne : ∀ c ∈ text, (c != '=') = true := by
    intro c hc
    rw [bne_iff_ne]
    rintro rfl
    exact h hc
  have htake := List.takeWhile_eq_self_iff.mpr hne
  have hdrop := List.dropWhile_eq_nil_iff.mpr hne
  rw [cutAtEquals, htake, hdrop]
  rfl

theorem isNegativeNumber_of_digits {digits : List Char} (h : Digits digits) (hne : digits ≠ []) :
    isNegativeNumber ('-' :: digits) = true := by
  have hdigit : ∀ c ∈ digits, (Text.decimalDigit? c).isSome = true := by
    intro c hc
    rw [Text.decimalDigit?_of_isDigit (h c hc)]
    rfl
  have hlast : (('-' :: digits).getLast? == some '\n') = false := by
    rw [beq_eq_false_iff_ne]
    intro hlast
    rcases List.mem_cons.mp (List.mem_of_getLast? hlast) with hminus | hmem
    · cases hminus
    · cases h '\n' hmem
  have hdrop := List.dropWhile_eq_nil_iff.mpr hdigit
  simp only [isNegativeNumber, hlast, Bool.false_eq_true, if_false, hdrop]
  simpa using hne

/-- A text names a switch by two dashes, or a flag by one. -/
theorem inFull?_eq_none {text : List Char} (hname : ∀ more, text ≠ '-' :: '-' :: more)
    (hflag : ∀ c, text = ['-', c] → Flag.ofLetter? c = none) : inFull? text = none := by
  unfold inFull?
  split
  · next c =>
    rw [hflag c rfl]
    rfl
  · rw [Switch.named?_eq_none hname]
    rfl

theorem classifyWord_digits {digits : List Char} (h : Digits digits) :
    classifyWord digits = .ok (.plain digits) := by
  have hequals : '=' ∉ digits := fun hmem => absurd (h '=' hmem) (by decide)
  have hdash : ∀ more, digits ≠ '-' :: more := by
    rintro more rfl
    cases h '-' List.mem_cons_self
  have hfull : inFull? digits = none :=
    inFull?_eq_none (fun more => hdash ('-' :: more)) (fun c heq => absurd heq (hdash [c]))
  unfold classifyWord
  simp only [cutAtEquals_of_not_mem hequals, hfull]
  split
  · next hnone => cases hnone
  · next hnone => cases hnone
  · exact absurd rfl (hdash _)
  · rfl

theorem classifyWord_negative {digits : List Char} (h : Digits digits) (hne : digits ≠ []) :
    classifyWord ('-' :: digits) = .ok (.plain ('-' :: digits)) := by
  obtain ⟨c, rest, rfl⟩ := List.exists_cons_of_ne_nil hne
  have hc : c.isDigit = true := h c List.mem_cons_self
  have hdash : c ≠ '-' := ne_of_isDigit hc rfl
  have hequals : '=' ∉ '-' :: c :: rest := by
    intro hmem
    rcases List.mem_cons.mp hmem with hminus | hdigit
    · cases hminus
    · cases h '=' hdigit
  have hfull : inFull? ('-' :: c :: rest) = none := by
    apply inFull?_eq_none
    · rintro more ⟨⟩
      exact hdash rfl
    · rintro d ⟨⟩
      exact Flag.ofLetter?_of_isDigit hc
  -- neither a long name nor a flag begins so, but a negative number does
  have hmeanings : interpretations ('-' :: c :: rest) = [] := by
    unfold interpretations
    split
    · next heq =>
      cases heq
      exact absurd rfl hdash
    · next heq =>
      cases heq
      rw [Flag.ofLetter?_of_isDigit hc]
      rfl
    · rfl
  unfold classifyWord
  simp [cutAtEquals_of_not_mem hequals, hfull, hmeanings, isNegativeNumber_of_digits h hne]

/-- **A decimal integer is a plain argument**, also behind a minus sign. -/
theorem classifyWord_intText (z : Int) :
    classifyWord (Numeral.intText z) = .ok (.plain (Numeral.intText z)) := by
  have hdigits := Numeral.digits_text z.natAbs
  rcases intText_cases z with ⟨-, htext⟩ | ⟨-, htext⟩
  · rw [htext]
    exact classifyWord_negative hdigits (Numeral.text_ne_nil _)
  · rw [htext]
    exact classifyWord_digits hdigits

end CommandLine

end Lots
