import Lots.Binary64
import Mathlib.Algebra.Group.Nat.Defs

/-!
# Lots — rounding to the format

A ratio is rounded to a whole number of steps, and the step is the spacing of the format's
numbers around the ratio. All that is used of rounding elsewhere is that it respects the order
of ratios, and that it leaves the numbers of the format alone.

* **`Representable`** — the magnitudes of the format: whole multiples of the spacing around
  them.
* **`round_mono`** — rounding respects order. Where the numbers around two ratios are spaced
  differently, a power of two lies between the ratios, and rounding does not pass it.
* **`round_of_representable`**, **`representable_round`** — the magnitudes of the format are
  rounded to themselves, and every rounded magnitude is one.
* **`round_le`** — so rounding does not go up beyond a number of the format.
* **`round_congr`** — a ratio may be written in any way.
-/

namespace Lots.Binary64

/-! ## Whole numbers -/

theorem nearest_scale {c : Nat} (hc : 0 < c) (num den : Nat) :
    nearest (num * c) (den * c) = nearest num den := by
  have hless : 2 * (num % den * c) < den * c ↔ 2 * (num % den) < den := by
    rw [← Nat.mul_assoc, Nat.mul_lt_mul_right hc]
  have hmore : den * c < 2 * (num % den * c) ↔ den < 2 * (num % den) := by
    rw [← Nat.mul_assoc, Nat.mul_lt_mul_right hc]
  simp only [nearest, Nat.mul_div_mul_right _ _ hc, Nat.mul_mod_mul_right, hless, hmore]

/-- The whole number below a ratio, or the one above it, as the rest is small or not. -/
theorem nearest_cases (num den : Nat) :
    nearest num den = num / den ∧ 2 * (num % den) ≤ den ∨
      nearest num den = num / den + 1 ∧ den ≤ 2 * (num % den) := by
  unfold nearest
  dsimp only
  split
  · exact .inl ⟨rfl, by omega⟩
  · split
    · exact .inr ⟨rfl, by omega⟩
    · split
      · exact .inl ⟨rfl, by omega⟩
      · exact .inr ⟨rfl, by omega⟩

theorem nearest_mono {num num' : Nat} (den : Nat) (h : num ≤ num') :
    nearest num den ≤ nearest num' den := by
  rcases Nat.lt_or_eq_of_le (Nat.div_le_div_right (c := den) h) with hlow | hlow
  · have := nearest_cases num den
    have := nearest_cases num' den
    omega
  · -- ratios between the same whole numbers are compared by what is left of them
    have hrest : num % den ≤ num' % den := by
      have hdiv := Nat.div_add_mod num den
      have hdiv' := Nat.div_add_mod num' den
      rw [hlow] at hdiv
      omega
    unfold nearest
    rw [hlow]
    dsimp only
    generalize num' / den = low
    generalize num % den = rest at *
    generalize num' % den = rest' at *
    grind

theorem nearest_mul {den : Nat} (hden : 0 < den) (m : Nat) : nearest (m * den) den = m := by
  have hrest : 2 * 0 < den := hden
  simp only [nearest, Nat.mul_div_cancel _ hden, Nat.mul_mod_left, if_pos hrest]

theorem le_nearest_of_le {num den m : Nat} (hden : 0 < den) (h : m * den ≤ num) :
    m ≤ nearest num den := by
  rw [← nearest_mul hden m]
  exact nearest_mono den h

theorem nearest_le_of_le {num den m : Nat} (hden : 0 < den) (h : num ≤ m * den) :
    nearest num den ≤ m := by
  rw [← nearest_mul hden m]
  exact nearest_mono den h

/-- Below the middle of two whole numbers, the nearest one is at most the lower one. -/
theorem nearest_le_of_lt {num den m : Nat} (hden : 0 < den) (h : 2 * num < den * (2 * m + 1)) :
    nearest num den ≤ m := by
  have hlt : den * (2 * nearest num den) < den * (2 * (m + 1)) :=
    calc den * (2 * nearest num den) ≤ 2 * num + den := nearest_le hden
      _ < den * (2 * m + 1) + den := by omega
      _ = den * (2 * (m + 1)) := by grind
  have := Nat.lt_of_mul_lt_mul_left hlt
  omega

/-! ## Order -/

theorem spacing_pos (units : Nat) : 0 < spacing units :=
  Nat.two_pow_pos _

theorem round_scale {c : Nat} (hc : 0 < c) (num den : Nat) :
    round (num * c) (den * c) = round num den := by
  have hstep : ∀ step, den * c * step = den * step * c := Nat.mul_right_comm den c
  simp only [round, Nat.mul_div_mul_right _ _ hc, hstep, nearest_scale hc]

/-- The spacing below a power of two divides it. -/
theorem spacing_dvd_two_pow {units k : Nat} (h : units < 2 ^ k) : spacing units ∣ 2 ^ k := by
  apply Nat.pow_dvd_pow
  by_cases hzero : units = 0
  · simp [hzero]
  · have := (Nat.log2_lt hzero).mpr h
    omega

/-- Rounding does not pass a power of two from below. -/
theorem round_le_two_pow {num den k : Nat} (hden : 0 < den) (h : num / den < 2 ^ k) :
    round num den ≤ 2 ^ k := by
  obtain ⟨m, hm⟩ := spacing_dvd_two_pow h
  have hpos := spacing_pos (num / den)
  have hnum : num ≤ m * (den * spacing (num / den)) := by
    rw [Nat.mul_left_comm, Nat.mul_comm m, ← hm, Nat.mul_comm]
    exact Nat.le_of_lt ((Nat.div_lt_iff_lt_mul hden).mp h)
  calc round num den ≤ m * spacing (num / den) :=
        Nat.mul_le_mul_right _ (nearest_le_of_le (Nat.mul_pos hden hpos) hnum)
    _ = 2 ^ k := by rw [Nat.mul_comm, ← hm]

/-- Nor from above. -/
theorem two_pow_le_round {num den k : Nat} (hden : 0 < den) (h : 2 ^ k ≤ num / den) :
    2 ^ k ≤ round num den := by
  have hne : num / den ≠ 0 := Nat.ne_of_gt (Nat.lt_of_lt_of_le (Nat.two_pow_pos k) h)
  -- the greatest power of two below the ratio is a whole number of steps
  have hdvd : spacing (num / den) ∣ 2 ^ (num / den).log2 := Nat.pow_dvd_pow 2 (by omega)
  obtain ⟨m, hm⟩ := hdvd
  have hpos := spacing_pos (num / den)
  have hnum : m * (den * spacing (num / den)) ≤ num := by
    rw [Nat.mul_left_comm, Nat.mul_comm m, ← hm, Nat.mul_comm]
    exact (Nat.le_div_iff_mul_le hden).mp (Nat.log2_self_le hne)
  calc 2 ^ k ≤ 2 ^ (num / den).log2 :=
        Nat.pow_le_pow_right (by decide) ((Nat.le_log2 hne).mpr h)
    _ = m * spacing (num / den) := by rw [Nat.mul_comm, ← hm]
    _ ≤ round num den :=
        Nat.mul_le_mul_right _ (le_nearest_of_le (Nat.mul_pos hden hpos) hnum)

/-- **Rounding respects order.** -/
theorem round_mono {num num' den : Nat} (hden : 0 < den) (h : num ≤ num') :
    round num den ≤ round num' den := by
  have hdiv : num / den ≤ num' / den := Nat.div_le_div_right h
  by_cases hlog : (num / den).log2 = (num' / den).log2
  · have hstep : spacing (num / den) = spacing (num' / den) := by simp only [spacing, hlog]
    simp only [round, hstep]
    exact Nat.mul_le_mul_right _ (nearest_mono _ h)
  · have hne : num' / den ≠ 0 := by
      intro hzero
      rw [hzero, Nat.le_zero] at hdiv
      exact hlog (by rw [hdiv, hzero])
    have hbelow : num / den < 2 ^ (num' / den).log2 := by
      by_cases hzero : num / den = 0
      · rw [hzero]
        exact Nat.two_pow_pos _
      · have hle : (num / den).log2 ≤ (num' / den).log2 :=
          (Nat.le_log2 hne).mpr (Nat.le_trans (Nat.log2_self_le hzero) hdiv)
        exact (Nat.log2_lt hzero).mp (Nat.lt_of_le_of_ne hle hlog)
    exact Nat.le_trans (round_le_two_pow hden hbelow)
      (two_pow_le_round hden (Nat.log2_self_le hne))

/-- Rounding respects the order of ratios, however they are written. -/
theorem round_le_round {num den num' den' : Nat} (hden : 0 < den) (hden' : 0 < den')
    (h : num * den' ≤ num' * den) : round num den ≤ round num' den' := by
  rw [← round_scale hden' num den, ← round_scale hden num' den', Nat.mul_comm den' den]
  exact round_mono (Nat.mul_pos hden hden') h

theorem round_congr {num den num' den' : Nat} (hden : 0 < den) (hden' : 0 < den')
    (h : num * den' = num' * den) : round num den = round num' den' :=
  Nat.le_antisymm (round_le_round hden hden' (Nat.le_of_eq h))
    (round_le_round hden' hden (Nat.le_of_eq h.symm))

/-! ## Numbers of the format -/

/-- The format has a number of so many units. -/
def Representable (units : Nat) : Prop :=
  spacing units ∣ units

instance (units : Nat) : Decidable (Representable units) :=
  inferInstanceAs (Decidable (spacing units ∣ units))

/-- Up to 53 bits and any number of zeros behind them. -/
theorem representable_mul_pow {m : Nat} (hm : m ≤ 2 ^ 53) (e : Nat) :
    Representable (m * 2 ^ e) := by
  -- all 53 bits and one more are a power of two, which has one bit
  rcases Nat.lt_or_eq_of_le hm with hlt | rfl
  · have hbound : m * 2 ^ e < 2 ^ (53 + e) := by
      rw [Nat.pow_add]
      exact Nat.mul_lt_mul_of_pos_right hlt (Nat.two_pow_pos e)
    apply Nat.dvd_mul_left_of_dvd
    apply Nat.pow_dvd_pow
    by_cases hzero : m * 2 ^ e = 0
    · simp [hzero]
    · have := (Nat.log2_lt hzero).mpr hbound
      omega
  · rw [Representable, ← Nat.pow_add]
    apply Nat.pow_dvd_pow
    rw [Nat.log2_two_pow]
    omega

theorem round_self {den : Nat} (hden : 0 < den) {units : Nat} (h : Representable units) :
    round (units * den) den = units := by
  obtain ⟨m, hm⟩ := h
  have hsteps : units * den = m * (den * spacing units) := by
    rw [Nat.mul_left_comm, Nat.mul_comm m, ← hm, Nat.mul_comm]
  have hpos := spacing_pos units
  rw [round, Nat.mul_div_cancel _ hden, hsteps, nearest_mul (Nat.mul_pos hden hpos), Nat.mul_comm]
  exact hm.symm

/-- **The numbers of the format are rounded to themselves.** -/
theorem round_of_representable {units : Nat} (h : Representable units) : round units 1 = units := by
  have hself := round_self Nat.one_pos h
  rwa [Nat.mul_one] at hself

/-- **What is rounded is a number of the format.** -/
theorem representable_round {num den : Nat} (hden : 0 < den) : Representable (round num den) := by
  have hpos := spacing_pos (num / den)
  have hbits : num / den < 2 ^ 53 * spacing (num / den) := by
    rw [spacing, Nat.pow_eq, ← Nat.pow_add]
    by_cases hzero : num / den = 0
    · rw [hzero]
      exact Nat.two_pow_pos _
    · exact (Nat.log2_lt hzero).mp (by omega)
  have hnum : num ≤ 2 ^ 53 * (den * spacing (num / den)) := by
    rw [Nat.mul_left_comm, Nat.mul_comm]
    exact Nat.le_of_lt ((Nat.div_lt_iff_lt_mul hden).mp hbits)
  exact representable_mul_pow (nearest_le_of_le (Nat.mul_pos hden hpos) hnum) _

/-- A ratio below a number of the format is not rounded beyond it. -/
theorem round_le {num den units : Nat} (hden : 0 < den) (h : Representable units)
    (hle : num ≤ units * den) : round num den ≤ units := by
  rw [← round_self hden h]
  exact round_mono hden hle

end Lots.Binary64
