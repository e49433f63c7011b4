import Lots.Binary64.Decimal
import Lots.Proofs.Binary64.Arithmetic
import Lots.Proofs.Text.Runs
import Mathlib.Algebra.Order.Field.Power
import Mathlib.Data.Nat.Prime.Basic
import Mathlib.Data.Rat.Cast.Order
import Mathlib.Tactic.NormNum
import Mathlib.Tactic.Positivity
import Mathlib.Tactic.Ring
import Mathlib.Tactic.Zify

/-!
# Lots — printed floating-point numbers

Decimal texts are read through the rational numbers that they mean: of these the nearest number
of the format is taken. So a printed number reads back if the text means a number that the digits
of the shortest decimal mean, and these are chosen to be rounded to it.

* **`Numeral.decimal`** — what digits mean, the last one at a power of ten.
* **`roundRat`** — the magnitude nearest to a rational number; it respects order
  (`roundRat_mono`), and decimal texts are read by it (`ofDecimal_eq`).
* **`shortest_reads`** — the shortest decimal is rounded to the number it was made of, whether
  found on the grids or taken as the exact one.
* **`exists_positional`** — a positional text means what its digits do.
* **`Plain`** — the numbers that are written positionally: `unitsText_eq`. The first digit of the
  shortest decimal is at a low power of ten exactly for small numbers, as rounding respects order
  and the two limits print as themselves.
* **`Proper.exists_text`** — a plain number is written as digits around a point that read back;
  **`Proper.mem_text`** — any other one is written with an exponent.
-/

namespace Lots

namespace Numeral

/-! ## Digits -/

theorem value_append (s t : List Char) : value (s ++ t) = value s * 10 ^ t.length + value t := by
  unfold value
  rw [Nat.ofDigitChars_append, Nat.ofDigitChars_eq_ofDigitChars_zero, Nat.mul_comm]

theorem value_replicate_zero (n : Nat) : value (List.replicate n '0') = 0 := by
  rw [value, Nat.ofDigitChars_replicate_zero, Nat.mul_zero]

/-- The number that digits mean, the last one at a power of ten. -/
def decimal (digits : List Char) (exponent : Int) : ℚ :=
  value digits * 10 ^ exponent

theorem decimal_append_zeros (digits : List Char) (n : Nat) (exponent : Int) :
    decimal (digits ++ List.replicate n '0') exponent = decimal digits (exponent + n) := by
  rw [decimal, value_append, value_replicate_zero, List.length_replicate, decimal,
    zpow_add₀ (by norm_num), zpow_natCast]
  push_cast
  ring

theorem decimal_zeros_append (digits : List Char) (n : Nat) (exponent : Int) :
    decimal (List.replicate n '0' ++ digits) exponent = decimal digits exponent := by
  rw [decimal, value_append, value_replicate_zero, Nat.zero_mul, Nat.zero_add, decimal]

/-- A number has as many digits as it is long: the first one is at the power of ten below it. -/
theorem pow_le_and_lt {n : Nat} (h : n ≠ 0) :
    10 ^ ((text n).length - 1) ≤ n ∧ n < 10 ^ (text n).length := by
  have hpos : 0 < (text n).length := Nat.length_toDigits_pos
  refine ⟨?_, (Nat.length_toDigits_le_iff (by decide) hpos).mp (Nat.le_refl _)⟩
  rcases Nat.eq_zero_or_pos ((text n).length - 1) with hone | hmore
  · rw [hone]
    exact Nat.pos_of_ne_zero h
  · apply Nat.le_of_not_lt
    intro hlt
    have := (Nat.length_toDigits_le_iff (by decide) hmore).mpr hlt
    unfold text at this hpos
    omega

end Numeral

open Numeral (decimal)

namespace Binary64

/-! ## Nearest numbers of the format -/

/-- The magnitude of the format nearest to a rational number. -/
def roundRat (q : ℚ) : Nat :=
  round (q.num.toNat * oneUnits) q.den

theorem round_eq_roundRat {num den : Nat} (hden : 0 < den) :
    round (num * oneUnits) den = roundRat (num / den) := by
  have hden' : (den : ℚ) ≠ 0 := by exact_mod_cast hden.ne'
  have hnonneg : (0 : ℚ) ≤ num / den := by positivity
  generalize hq : (num / den : ℚ) = q at hnonneg
  have hcross : num * q.den = q.num.toNat * den := by
    have hnum : (q.num.toNat : ℚ) = q.num := by
      exact_mod_cast Int.toNat_of_nonneg (Rat.num_nonneg.mpr hnonneg)
    have hratio : (num : ℚ) / den = q.num / q.den := by rw [hq, Rat.num_div_den]
    have hqden : (q.den : ℚ) ≠ 0 := by exact_mod_cast q.den_ne_zero
    rw [div_eq_div_iff hden' hqden, ← hnum] at hratio
    exact_mod_cast hratio
  apply round_congr hden q.den_pos
  rw [Nat.mul_right_comm, hcross, Nat.mul_right_comm]

/-- The nearest magnitudes respect order. -/
theorem roundRat_mono {q q' : ℚ} (hnonneg : 0 ≤ q) (h : q ≤ q') : roundRat q ≤ roundRat q' := by
  have hnum := Rat.num_nonneg.mpr hnonneg
  have hnum' := Rat.num_nonneg.mpr (hnonneg.trans h)
  have hcross : q.num.toNat * q'.den ≤ q'.num.toNat * q.den := by
    have := (Rat.le_iff q q').mp h
    zify
    rwa [Int.toNat_of_nonneg hnum, Int.toNat_of_nonneg hnum']
  apply round_le_round q.den_pos q'.den_pos
  rw [Nat.mul_right_comm, Nat.mul_right_comm q'.num.toNat]
  exact Nat.mul_le_mul_right _ hcross

theorem roundRat_zero : roundRat 0 = 0 := by
  rw [roundRat, Rat.num_zero, Int.toNat_zero, Nat.zero_mul, Rat.den_zero]
  exact round_of_representable (Nat.dvd_zero _)

theorem unitsAt_eq (places value : Nat) :
    unitsAt places value = roundRat (value * 10 ^ (-(places : Int))) := by
  have hpow : 0 < 10 ^ places := Nat.pow_pos (by decide)
  rw [unitsAt, Nat.pow_eq, round_eq_roundRat hpow, zpow_neg, zpow_natCast, div_eq_mul_inv]
  push_cast
  rfl

/-- Decimal texts are read by the numbers they mean. -/
theorem ofDecimal_eq (negative : Bool) (digits : List Char) (places : Nat) :
    ofDecimal negative digits places =
      ⟨negative, min (roundRat (decimal digits (-places))) infiniteUnits⟩ := by
  rw [decimal, ← unitsAt_eq]
  rfl

/-! ## Shortest decimals -/

/-- The number that a decimal means. -/
def Digits.toRat (d : Digits) : ℚ :=
  d.value * 10 ^ d.exponent

theorem reads_of_gridPoint? {units places exact step m : Nat}
    (h : gridPoint? units places exact step = some m) : unitsAt places (m * step) = units := by
  simp only [gridPoint?] at h
  split at h
  · next hboth =>
    cases h
    -- the nearest point is one of the two neighbours
    rcases nearest_cases exact step with ⟨hnearest, -⟩ | ⟨hnearest, -⟩
    · rw [hnearest]
      exact hboth.1
    · rw [hnearest]
      exact hboth.2
  split at h
  · next hlow =>
    cases h
    exact hlow
  split at h
  · next hhigh =>
    cases h
    exact hhigh
  · cases h

/-- In so many places a magnitude is a whole number. -/
theorem oneUnits_dvd (units : Nat) : oneUnits ∣ units * 10 ^ placesOf units := by
  have hgcd : units.gcd oneUnits ∣ oneUnits := Nat.gcd_dvd_right units oneUnits
  have hpow : oneUnits = 2 ^ 1074 := by decide +kernel
  have hdvd : oneUnits / units.gcd oneUnits ∣ 2 ^ 1074 := hpow ▸ Nat.div_dvd_of_dvd hgcd
  obtain ⟨k, -, hk⟩ := (Nat.dvd_prime_pow Nat.prime_two).mp hdvd
  have hplaces : placesOf units = k := by rw [placesOf, hk, Nat.log2_two_pow]
  have hone : oneUnits = units.gcd oneUnits * 2 ^ k := by rw [← hk, Nat.mul_div_cancel' hgcd]
  rw [hplaces]
  exact hone ▸ Nat.mul_dvd_mul (Nat.gcd_dvd_left _ _) (pow_dvd_pow_of_dvd (by decide) k)

/-- The decimals on the grids are read as the number, -/
theorem Digits.reads_of_found {units places exact length : Nat} {d : Digits}
    (h : ((List.range' 1 17).findSome? fun count =>
      (gridPoint? units places exact (Nat.pow 10 (length - count))).map
        (Digits.mk · ((length - count : Nat) - (places : Int)))) = some d) :
    roundRat d.toRat = units := by
  obtain ⟨count, -, hpoint⟩ := List.exists_of_findSome?_eq_some h
  obtain ⟨m, hm, rfl⟩ := Option.map_eq_some_iff.mp hpoint
  rw [← reads_of_gridPoint? hm, unitsAt_eq, toRat, zpow_sub₀ (by norm_num), zpow_neg,
    zpow_natCast, zpow_natCast, Nat.pow_eq]
  push_cast
  ring_nf

/-- and so is the exact one. -/
theorem Digits.reads_exact {units : Nat} (h : Representable units) :
    roundRat (toRat ⟨units * 10 ^ placesOf units / oneUnits, -placesOf units⟩) = units := by
  obtain ⟨exact, hexact⟩ := oneUnits_dvd units
  have hpow : 0 < 10 ^ placesOf units := Nat.pow_pos (by decide)
  have hone : 0 < oneUnits := by decide +kernel
  rw [toRat, ← unitsAt_eq, hexact, Nat.mul_div_cancel_left _ hone, unitsAt, Nat.mul_comm,
    ← hexact]
  exact round_self hpow h

/-- **The shortest decimal of a number is read as it.** -/
theorem shortest_reads {units : Nat} (h : Representable units) :
    roundRat (shortest units).toRat = units := by
  simp only [shortest]
  cases hfound : (List.range' 1 17).findSome? _ with
  | none => exact Digits.reads_exact h
  | some d => exact Digits.reads_of_found hfound

/-! ## Layout -/

theorem digits_zeros (count : Nat) : Text.Digits (zeros count) := by
  intro c hc
  rw [List.eq_of_mem_replicate hc]
  rfl

/-- Digits that mean something are the significant ones and zeros. -/
theorem exists_zeros {digits : List Char} (h : Numeral.value digits ≠ 0) :
    ∃ count, digits = significant digits ++ zeros count := by
  have hsplit : digits = (digits.reverse.dropWhile (· == '0')).reverse ++
      zeros (digits.reverse.takeWhile (· == '0')).length := by
    have hzeros : zeros (digits.reverse.takeWhile (· == '0')).length =
        digits.reverse.takeWhile (· == '0') := by
      refine (List.eq_replicate_of_mem fun c hc => ?_).symm
      exact eq_of_beq (List.all_eq_true.mp List.all_takeWhile c hc)
    have hreverse : (zeros (digits.reverse.takeWhile (· == '0')).length).reverse =
        zeros (digits.reverse.takeWhile (· == '0')).length := List.reverse_replicate
    rw [← hreverse, hzeros, ← List.reverse_append, List.takeWhile_append_dropWhile,
      List.reverse_reverse]
  unfold significant
  split
  · next hnone =>
    rw [hnone, List.nil_append] at hsplit
    rw [hsplit, zeros, Numeral.value_replicate_zero] at h
    exact absurd rfl h
  · exact ⟨_, hsplit⟩

theorem significant_ne_nil (digits : List Char) : significant digits ≠ [] := by
  unfold significant
  split
  · exact List.cons_ne_nil _ _
  · assumption

/-- A positional text is digits around a point, and means what the digits do with the first one at
the power of ten. -/
theorem exists_positional {digits : List Char} (hdigits : Text.Digits digits) (hne : digits ≠ [])
    (power : Int) :
    ∃ whole fraction, positional digits power = whole ++ '.' :: fraction ∧
      Text.Digits whole ∧ Text.Digits fraction ∧ fraction ≠ [] ∧
      decimal (whole ++ fraction) (-fraction.length) =
        decimal digits (power + 1 - digits.length) := by
  unfold positional
  split
  · next hneg =>
    -- zeros and all digits stand behind the point
    refine ⟨['0'], zeros (power.natAbs - 1) ++ digits, rfl, digits_zeros 1,
      List.forall_mem_append.mpr ⟨digits_zeros _, hdigits⟩, List.append_ne_nil_of_right_ne_nil _ hne,
      ?_⟩
    have hone : (['0'] : List Char) = List.replicate 1 '0' := rfl
    rw [hone, zeros, Numeral.decimal_zeros_append, Numeral.decimal_zeros_append]
    congr 1
    simp only [List.length_append, List.length_replicate]
    omega
  · next hnonneg =>
    have hlength : ((power.toNat : Nat) : Int) = power := Int.toNat_of_nonneg (Int.not_lt.mp hnonneg)
    dsimp only
    split
    · next hshort =>
      -- zeros fill the digits up to the point
      have hle : digits.length ≤ power.toNat + 1 := by simpa using hshort
      rw [List.take_of_length_le hle]
      refine ⟨_, _, rfl, List.forall_mem_append.mpr ⟨hdigits, digits_zeros _⟩, digits_zeros 1,
        List.cons_ne_nil _ _, ?_⟩
      have hone : (['0'] : List Char) = List.replicate 1 '0' := rfl
      rw [hone, Numeral.decimal_append_zeros, zeros, Numeral.decimal_append_zeros]
      congr 1
      simp only [List.length_replicate]
      omega
    · next hlong =>
      have hlt : power.toNat + 1 < digits.length := by simpa using hlong
      have hfull : power.toNat + 1 - digits.length = 0 := by omega
      refine ⟨_, _, rfl, ?_, fun c hc => hdigits c (List.mem_of_mem_drop hc), ?_, ?_⟩
      · refine List.forall_mem_append.mpr ⟨fun c hc => ?_, digits_zeros _⟩
        exact hdigits c (List.mem_of_mem_take hc)
      · simpa using hlt
      · rw [hfull, zeros, List.replicate_zero, List.append_nil, List.take_append_drop,
          List.length_drop]
        congr 1
        omega

theorem mem_exponential (digits : List Char) (power : Int) : 'e' ∈ exponential digits power := by
  unfold exponential
  exact List.mem_append_left _ (List.mem_append_right _ List.mem_cons_self)

/-! ## Plain numbers -/

/-- A number that is written without an exponent: zero, or one from 10^-4 up to, not including,
10^16. -/
def Plain (x : Binary64) : Prop :=
  x.units = 0 ∨ unitsAt 4 1 ≤ x.units ∧ x.units < unitsAt 0 (10 ^ 16)

instance (x : Binary64) : Decidable x.Plain :=
  inferInstanceAs (Decidable (_ ∨ _))

/-- The power of ten of the first digit. -/
def Digits.power (d : Digits) : Int :=
  d.exponent + ((Numeral.text d.value).length : Int) - 1

theorem Digits.toRat_nonneg (d : Digits) : 0 ≤ d.toRat := by
  unfold toRat
  positivity

theorem Digits.toRat_eq (d : Digits) : d.toRat = decimal (Numeral.text d.value) d.exponent := by
  rw [toRat, decimal, Numeral.value_text]

theorem Digits.pow_le_toRat {d : Digits} (h : d.value ≠ 0) :
    (10 : ℚ) ^ d.power ≤ d.toRat ∧ d.toRat < 10 ^ (d.power + 1) := by
  obtain ⟨hle, hlt⟩ := Numeral.pow_le_and_lt h
  have hlength : 0 < (Numeral.text d.value).length := Nat.length_toDigits_pos
  have hexponent : (0 : ℚ) < 10 ^ d.exponent := by positivity
  have hpower : d.power = (((Numeral.text d.value).length - 1 : Nat) : Int) + d.exponent := by
    unfold power
    omega
  have hpower' : d.power + 1 = ((Numeral.text d.value).length : Int) + d.exponent := by
    unfold power
    omega
  rw [hpower', hpower, zpow_add₀ (by norm_num), zpow_add₀ (by norm_num), zpow_natCast,
    zpow_natCast, toRat]
  constructor
  · exact mul_le_mul_of_nonneg_right (by exact_mod_cast hle) hexponent.le
  · exact mul_lt_mul_of_pos_right (by exact_mod_cast hlt) hexponent

/-- The first digit is at a power of ten or a higher one exactly in numbers from there on. -/
theorem Digits.le_power_iff {d : Digits} (h : d.value ≠ 0) (n : Int) :
    n ≤ d.power ↔ (10 : ℚ) ^ n ≤ d.toRat := by
  obtain ⟨hle, hlt⟩ := pow_le_toRat h
  constructor
  · intro hn
    exact (zpow_le_zpow_right₀ (by norm_num) hn).trans hle
  · intro hn
    have hpow := (zpow_lt_zpow_iff_right₀ (by norm_num)).mp (hn.trans_lt hlt)
    omega

/-- Decimals are rounded to numbers on their side of a limit that prints as itself. -/
theorem le_toRat_shortest_iff {units places value : Nat} (h : Representable units)
    (hlimit : (shortest (unitsAt places value)).toRat = value * 10 ^ (-(places : Int))) :
    value * 10 ^ (-(places : Int)) ≤ (shortest units).toRat ↔ unitsAt places value ≤ units := by
  have hreads := shortest_reads h
  constructor
  · intro hle
    calc unitsAt places value = roundRat (value * 10 ^ (-(places : Int))) := unitsAt_eq _ _
      _ ≤ roundRat (shortest units).toRat := roundRat_mono (by positivity) hle
      _ = units := hreads
  · intro hle
    apply le_of_not_gt
    intro hlt
    have hmono : units ≤ unitsAt places value :=
      calc units = roundRat (shortest units).toRat := hreads.symm
        _ ≤ roundRat (value * 10 ^ (-(places : Int))) := roundRat_mono (Digits.toRat_nonneg _) hlt.le
        _ = unitsAt places value := (unitsAt_eq _ _).symm
    -- a number on the limit has the limit's decimal
    have hunits : units = unitsAt places value := Nat.le_antisymm hmono hle
    rw [hunits, hlimit] at hlt
    exact hlt.false

theorem shortest_value_ne_zero {units : Nat} (h : Representable units) (hne : units ≠ 0) :
    (shortest units).value ≠ 0 := by
  intro hzero
  have hreads := shortest_reads h
  rw [Digits.toRat, hzero, Nat.cast_zero, zero_mul, roundRat_zero] at hreads
  exact hne hreads.symm

/-- The layout of a number depends on its magnitude. -/
theorem positional_iff {units : Nat} (h : Representable units) (hne : units ≠ 0) :
    leastPositional ≤ (shortest units).power ∧ (shortest units).power < leastExponential ↔
      unitsAt 4 1 ≤ units ∧ units < unitsAt 0 (10 ^ 16) := by
  have hvalue := shortest_value_ne_zero h hne
  have hlow : (shortest (unitsAt 4 1)).toRat = (1 : Nat) * 10 ^ (-((4 : Nat) : Int)) := by
    have hshortest : shortest (unitsAt 4 1) = ⟨1, -4⟩ := by decide +kernel
    rw [hshortest]
    rfl
  have hhigh : (shortest (unitsAt 0 (10 ^ 16))).toRat =
      (10 ^ 16 : Nat) * 10 ^ (-((0 : Nat) : Int)) := by
    have hshortest : shortest (unitsAt 0 (10 ^ 16)) = ⟨1, 16⟩ := by decide +kernel
    rw [hshortest, Digits.toRat]
    norm_num
  have hleast : leastPositional ≤ (shortest units).power ↔ unitsAt 4 1 ≤ units := by
    rw [← le_toRat_shortest_iff h hlow, Digits.le_power_iff hvalue]
    norm_num [leastPositional]
  have hmost : leastExponential ≤ (shortest units).power ↔ unitsAt 0 (10 ^ 16) ≤ units := by
    rw [← le_toRat_shortest_iff h hhigh, Digits.le_power_iff hvalue]
    norm_num [leastExponential]
  rw [hleast, ← Int.not_le, hmost, Nat.not_le]

theorem unitsText_eq {units : Nat} (h : Representable units) (hne : units ≠ 0)
    (hfinite : units < infiniteUnits) :
    unitsText units =
      if unitsAt 4 1 ≤ units ∧ units < unitsAt 0 (10 ^ 16) then
        positional (significant (Numeral.text (shortest units).value)) (shortest units).power
      else exponential (significant (Numeral.text (shortest units).value)) (shortest units).power := by
  rw [unitsText, if_neg (Nat.not_le.mpr hfinite), if_neg hne]
  simp only [← positional_iff h hne]
  rfl

/-- The positional text of the shortest decimal means this decimal. -/
theorem exists_positional_shortest {d : Digits} (h : d.value ≠ 0) :
    ∃ whole fraction, positional (significant (Numeral.text d.value)) d.power =
        whole ++ '.' :: fraction ∧
      Text.Digits whole ∧ Text.Digits fraction ∧ fraction ≠ [] ∧
      decimal (whole ++ fraction) (-fraction.length) = d.toRat := by
  have hvalue : Numeral.value (Numeral.text d.value) ≠ 0 := by rwa [Numeral.value_text]
  obtain ⟨count, hzeros⟩ := exists_zeros hvalue
  have hdigits : Text.Digits (significant (Numeral.text d.value)) := by
    intro c hc
    apply Numeral.digits_text d.value
    rw [hzeros]
    exact List.mem_append_left _ hc
  obtain ⟨whole, fraction, htext, hwhole, hfraction, hne, hmeans⟩ :=
    exists_positional hdigits (significant_ne_nil _) d.power
  refine ⟨whole, fraction, htext, hwhole, hfraction, hne, ?_⟩
  -- zeros that are left out move the last digit
  have hlength : (Numeral.text d.value).length =
      (significant (Numeral.text d.value)).length + count := by
    rw [congrArg List.length hzeros, List.length_append, zeros, List.length_replicate]
  have hlast : d.power + 1 - ((significant (Numeral.text d.value)).length : Int) =
      d.exponent + count := by
    unfold Digits.power
    omega
  rw [hmeans, hlast, ← Numeral.decimal_append_zeros, d.toRat_eq]
  exact congrArg (decimal · d.exponent) hzeros.symm

/-- **A plain number is written as digits around a point, and read back.** -/
theorem Proper.exists_text {x : Binary64} (h : x.Proper) (hplain : x.Plain) :
    ∃ whole fraction, unitsText x.units = whole ++ '.' :: fraction ∧ Text.Digits whole ∧
      Text.Digits fraction ∧ fraction ≠ [] ∧
      ofDecimal x.negative (whole ++ fraction) fraction.length = x := by
  have hread : ∀ whole fraction : List Char,
      roundRat (decimal (whole ++ fraction) (-fraction.length)) = x.units →
      ofDecimal x.negative (whole ++ fraction) fraction.length = x := by
    intro whole fraction hround
    rw [ofDecimal_eq, hround, Nat.min_eq_left h.finite.le]
  by_cases hzero : x.units = 0
  · refine ⟨['0'], ['0'], ?_, by decide, by decide, List.cons_ne_nil _ _, hread _ _ ?_⟩
    · rw [hzero]
      decide +kernel
    · rw [hzero]
      decide +kernel
  · have hrange := hplain.resolve_left hzero
    obtain ⟨whole, fraction, htext, hwhole, hfraction, hne, hmeans⟩ :=
      exists_positional_shortest (shortest_value_ne_zero h.representable hzero)
    refine ⟨whole, fraction, ?_, hwhole, hfraction, hne, hread _ _ ?_⟩
    · rw [unitsText_eq h.representable hzero h.finite, if_pos hrange, htext]
    · rw [hmeans, shortest_reads h.representable]

/-- **Any other number is written with an exponent.** -/
theorem Proper.mem_text {x : Binary64} (h : x.Proper) (hplain : ¬ x.Plain) : 'e' ∈ x.text := by
  obtain ⟨hzero, hrange⟩ := not_or.mp hplain
  have hunits : 'e' ∈ unitsText x.units := by
    rw [unitsText_eq h.representable hzero h.finite, if_neg hrange]
    exact mem_exponential _ _
  unfold text
  split
  · exact List.mem_cons_of_mem _ hunits
  · exact hunits

end Binary64

end Lots
