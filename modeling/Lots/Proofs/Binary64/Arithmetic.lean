import Lots.Proofs.Binary64.Rounding
import Mathlib.Order.Defs.PartialOrder

/-!
# Lots — sums, differences and fractions

The operations compute exactly and round once, so what they preserve is what rounding preserves:
they respect order, and a sum that is a number of the format is met exactly.

* **`Proper`** — the finite numbers of the format; what text and operations yield is one of them
  or infinite.
* **`roundUnits`** — rounding with signs. It respects order (`roundUnits_mono`) and leaves proper
  numbers alone (`Proper.roundUnits_eq`); sums and differences are rounded by it
  (`signedUnits_add`, `signedUnits_sub`).
* **`mul_ofFraction`** — a magnitude times a fraction of one.
* **`round_fraction_le`** — a fraction less than one of a rounded length is not more than the
  length was before, although rounding may have made it longer.
-/

namespace Lots.Binary64

/-! ## Order -/

/-- Numbers are ordered by value. -/
instance : LE Binary64 := ⟨fun x y => x.signedUnits ≤ y.signedUnits⟩

instance (x y : Binary64) : Decidable (x ≤ y) :=
  inferInstanceAs (Decidable (x.signedUnits ≤ y.signedUnits))

theorem le_iff {x y : Binary64} : x ≤ y ↔ x.signedUnits ≤ y.signedUnits := Iff.rfl

instance : Preorder Binary64 where
  le_refl _ := Int.le_refl _
  le_trans _ _ _ := Int.le_trans
  lt_iff_le_not_ge _ _ := Int.lt_iff_le_and_not_ge

theorem not_lt {x y : Binary64} : ¬ x < y ↔ y ≤ x :=
  Int.not_lt

theorem not_le {x y : Binary64} : ¬ x ≤ y ↔ y < x :=
  Int.not_le

/-! ## Proper numbers -/

/-- A finite number of the format. -/
structure Proper (x : Binary64) : Prop where
  finite : x.units < infiniteUnits
  representable : Representable x.units

theorem Proper.isFinite {x : Binary64} (h : x.Proper) : x.isFinite = true :=
  decide_eq_true h.finite

/-- What is rounded to a finite number is not cut. -/
theorem round_of_isFinite {negative : Bool} {num den : Nat}
    (h : (ofRatio negative num den).isFinite = true) :
    ofRatio negative num den = ⟨negative, round num den⟩ ∧ round num den < infiniteUnits := by
  have hmin : min (round num den) infiniteUnits < infiniteUnits := of_decide_eq_true h
  have hlt : round num den < infiniteUnits := by omega
  exact ⟨congrArg (mk negative) (Nat.min_eq_left (Nat.le_of_lt hlt)), hlt⟩

theorem proper_ofRatio {negative : Bool} {num den : Nat} (hden : 0 < den)
    (h : (ofRatio negative num den).isFinite = true) : (ofRatio negative num den).Proper := by
  obtain ⟨hround, hlt⟩ := round_of_isFinite h
  rw [hround]
  exact ⟨hlt, representable_round hden⟩

/-! ## Rounding with signs -/

/-- So many units, rounded to a number of the format. -/
def roundUnits (z : Int) : Int :=
  (ofRatio (z < 0) z.natAbs 1).signedUnits

theorem roundUnits_of_nonneg {z : Int} (h : 0 ≤ z) :
    roundUnits z = (min (round z.natAbs 1) infiniteUnits : Nat) := by
  have hsign : decide (z < 0) = false := decide_eq_false (Int.not_lt.mpr h)
  simp only [roundUnits, ofRatio, hsign, signedUnits, Bool.false_eq_true, if_false]

theorem roundUnits_of_neg {z : Int} (h : z < 0) :
    roundUnits z = -(min (round z.natAbs 1) infiniteUnits : Nat) := by
  have hsign : decide (z < 0) = true := decide_eq_true h
  simp only [roundUnits, ofRatio, hsign, signedUnits, if_true]

theorem roundUnits_mono {z z' : Int} (h : z ≤ z') : roundUnits z ≤ roundUnits z' := by
  by_cases hneg : z < 0
  · rw [roundUnits_of_neg hneg]
    by_cases hneg' : z' < 0
    · have hround : round z'.natAbs 1 ≤ round z.natAbs 1 := round_mono Nat.one_pos (by omega)
      rw [roundUnits_of_neg hneg']
      omega
    · rw [roundUnits_of_nonneg (Int.not_lt.mp hneg')]
      omega
  · have hround : round z.natAbs 1 ≤ round z'.natAbs 1 := round_mono Nat.one_pos (by omega)
    rw [roundUnits_of_nonneg (by omega), roundUnits_of_nonneg (by omega)]
    omega

theorem natAbs_signedUnits (x : Binary64) : x.signedUnits.natAbs = x.units := by
  unfold signedUnits
  split <;> omega

theorem Proper.roundUnits_eq {x : Binary64} (h : x.Proper) :
    roundUnits x.signedUnits = x.signedUnits := by
  have hround : min (round x.signedUnits.natAbs 1) infiniteUnits = x.units := by
    rw [natAbs_signedUnits, round_of_representable h.representable]
    exact Nat.min_eq_left (Nat.le_of_lt h.finite)
  have habs := natAbs_signedUnits x
  by_cases hneg : x.signedUnits < 0
  · rw [roundUnits_of_neg hneg, hround]
    omega
  · rw [roundUnits_of_nonneg (Int.not_lt.mp hneg), hround]
    omega

theorem roundUnits_zero : roundUnits 0 = 0 := by
  have hzero : Proper zero := ⟨by decide +kernel, Nat.dvd_zero _⟩
  exact hzero.roundUnits_eq

theorem signedUnits_add {x y : Binary64} (hx : x.Proper) (hy : y.Proper) :
    (x + y).signedUnits = roundUnits (x.signedUnits + y.signedUnits) := by
  show (x.add y).signedUnits = _
  simp only [add, hx.isFinite, hy.isFinite, Bool.not_true, Bool.false_eq_true, if_false]
  split
  · next hsum =>
    rw [hsum, roundUnits_zero]
    cases x.negative <;> cases y.negative <;> rfl
  · rfl

theorem signedUnits_neg (x : Binary64) : x.neg.signedUnits = -x.signedUnits := by
  cases hsign : x.negative <;> simp [signedUnits, neg, hsign]

theorem Proper.neg {x : Binary64} (h : x.Proper) : x.neg.Proper :=
  ⟨h.finite, h.representable⟩

theorem sub_eq (x y : Binary64) : x - y = x.add y.neg := by
  show x.sub y = x.add y.neg
  rw [sub]

/-- The distance of two numbers is rounded. -/
theorem sub_of_lt {low high : Binary64} (hlow : low.Proper) (hhigh : high.Proper)
    (h : low < high) :
    high - low = ofRatio false (high.signedUnits - low.signedUnits).natAbs 1 := by
  have hlt : low.signedUnits < high.signedUnits := h
  have hsum : high.signedUnits + -low.signedUnits = high.signedUnits - low.signedUnits := by
    omega
  have hne : ¬ high.signedUnits - low.signedUnits = 0 := by omega
  have hpos : ¬ high.signedUnits - low.signedUnits < 0 := by omega
  rw [sub_eq]
  simp only [add, hhigh.isFinite, hlow.neg.isFinite, signedUnits_neg, hsum, hne, hpos,
    Bool.not_true, Bool.false_eq_true, if_false, decide_false]

/-! ## Fractions of one -/

/-- Units in 2^-53. -/
def fractionUnits : Nat := Nat.pow 2 1021

theorem oneUnits_eq : oneUnits = 2 ^ 53 * fractionUnits := by
  decide +kernel

theorem fractionUnits_pos : 0 < fractionUnits := by
  decide +kernel

theorem ofFraction_eq (z : Int) :
    ofFraction z = ofRatio (z < 0) (z.natAbs * fractionUnits) 1 := by
  unfold ofFraction fractionUnits
  rfl

theorem representable_fraction {z : Nat} (h : z ≤ 2 ^ 53) : Representable (z * fractionUnits) := by
  have hunits : fractionUnits = 2 ^ 1021 := by decide +kernel
  rw [hunits]
  exact representable_mul_pow h 1021

theorem fraction_lt_infiniteUnits {z : Nat} (h : z ≤ 2 ^ 53) :
    z * fractionUnits < infiniteUnits :=
  calc z * fractionUnits ≤ 2 ^ 53 * fractionUnits := Nat.mul_le_mul_right _ h
    _ < infiniteUnits := by decide +kernel

/-- Fractions of one are numbers of the format. -/
theorem ofFraction_natCast {z : Nat} (h : z ≤ 2 ^ 53) :
    ofFraction z = ⟨false, z * fractionUnits⟩ := by
  have hsign : decide ((z : Int) < 0) = false := decide_eq_false (by omega)
  rw [ofFraction_eq, ofRatio, hsign, Int.natAbs_natCast,
    round_of_representable (representable_fraction h),
    Nat.min_eq_left (Nat.le_of_lt (fraction_lt_infiniteUnits h))]

theorem proper_ofFraction {z : Nat} (h : z ≤ 2 ^ 53) : (ofFraction z).Proper := by
  rw [ofFraction_natCast h]
  exact ⟨fraction_lt_infiniteUnits h, representable_fraction h⟩

theorem one_eq_ofFraction : one = ofFraction (2 ^ 53 : Nat) := by
  rw [ofFraction_natCast (Nat.le_refl _), one, oneUnits_eq]

/-- What is left of one is a fraction of one again. -/
theorem one_sub_ofFraction {z : Nat} (h : z < 2 ^ 53) :
    one - ofFraction z = ofFraction (2 ^ 53 - z : Nat) := by
  have hz := ofFraction_natCast (Nat.le_of_lt h)
  have hone := ofFraction_natCast (Nat.le_refl (2 ^ 53))
  have hlt : ofFraction z < ofFraction (2 ^ 53 : Nat) := by
    rw [hz, hone]
    exact Int.ofNat_lt.mpr (Nat.mul_lt_mul_of_pos_right h fractionUnits_pos)
  have hleft : ((ofFraction (2 ^ 53 : Nat)).signedUnits - (ofFraction z).signedUnits).natAbs =
      (2 ^ 53 - z) * fractionUnits := by
    rw [hz, hone, Nat.sub_mul]
    have hle : z * fractionUnits ≤ 2 ^ 53 * fractionUnits :=
      Nat.mul_le_mul_right _ (Nat.le_of_lt h)
    simp only [signedUnits, Bool.false_eq_true, if_false]
    omega
  have hsign : decide (((2 ^ 53 - z : Nat) : Int) < 0) = false := decide_eq_false (by omega)
  rw [one_eq_ofFraction, sub_of_lt (proper_ofFraction (Nat.le_of_lt h))
    (proper_ofFraction (Nat.le_refl _)) hlt, hleft, ofFraction_eq, hsign, Int.natAbs_natCast]

/-- A magnitude of the format times a fraction of one. -/
theorem mul_ofFraction {units z : Nat} (hunits : Proper ⟨false, units⟩) (hz : z ≤ 2 ^ 53) :
    (⟨false, units⟩ : Binary64) * ofFraction z = ⟨false, round (units * z) (2 ^ 53)⟩ := by
  have hscale : round (units * (z * fractionUnits)) oneUnits = round (units * z) (2 ^ 53) := by
    rw [oneUnits_eq, ← Nat.mul_assoc, round_scale fractionUnits_pos]
  have hle : round (units * z) (2 ^ 53) ≤ units :=
    round_le (Nat.two_pow_pos 53) hunits.representable (Nat.mul_le_mul_left _ hz)
  have hfinite : units < infiniteUnits := hunits.finite
  rw [ofFraction_natCast hz]
  show ofRatio (false != false) (units * (z * fractionUnits)) oneUnits = _
  rw [ofRatio, hscale, Nat.min_eq_left (Nat.le_trans hle (Nat.le_of_lt hfinite))]
  rfl

/-! ## Fractions of a rounded length -/

theorem spacing_eq {units e : Nat} (hlow : 2 ^ (52 + e) ≤ units) (hhigh : units < 2 ^ (53 + e)) :
    spacing units = 2 ^ e := by
  have hne : units ≠ 0 := Nat.ne_of_gt (Nat.lt_of_lt_of_le (Nat.two_pow_pos _) hlow)
  have hlog : units.log2 = 52 + e := by
    have := (Nat.le_log2 hne).mpr hlow
    have := (Nat.log2_lt hne).mpr hhigh
    omega
  rw [spacing, hlog, Nat.pow_eq]
  congr 1
  omega

/-- A length is rounded down to a number of the format, or up to the next one. In the second case
it has more than 53 bits. -/
theorem round_length (units : Nat) :
    round units 1 ≤ units ∨
      ∃ q e, 2 ^ 52 ≤ q ∧ q < 2 ^ 53 ∧ q * 2 ^ e ≤ units ∧ round units 1 = (q + 1) * 2 ^ e := by
  have hround : round units 1 = nearest units (spacing units) * spacing units := by
    rw [round, Nat.div_one, Nat.one_mul]
  rcases nearest_cases units (spacing units) with ⟨hnearest, -⟩ | ⟨hnearest, hrest⟩
  · left
    rw [hround, hnearest]
    exact Nat.div_mul_le_self _ _
  · right
    -- numbers of at most 53 bits leave no rest
    have hlog : 53 ≤ units.log2 := by
      apply Nat.le_of_not_lt
      intro hshort
      have hone : spacing units = 1 := by
        rw [spacing, Nat.sub_eq_zero_of_le (by omega), Nat.pow_eq, Nat.pow_zero]
      rw [hone, Nat.mod_one] at hrest
      omega
    have hne : units ≠ 0 := by
      rintro rfl
      exact absurd hlog (by decide)
    obtain ⟨e, he⟩ : ∃ e, units.log2 = 52 + e := ⟨units.log2 - 52, by omega⟩
    have hlow : 2 ^ (52 + e) ≤ units := he ▸ Nat.log2_self_le hne
    have hhigh : units < 2 ^ (53 + e) := (Nat.log2_lt hne).mp (by omega)
    have hstep := spacing_eq hlow hhigh
    rw [hstep] at hround hnearest
    rw [Nat.pow_add] at hlow hhigh
    refine ⟨units / 2 ^ e, e, ?_, ?_, Nat.div_mul_le_self _ _, by rw [hround, hnearest]⟩
    · exact (Nat.le_div_iff_mul_le (Nat.two_pow_pos e)).mpr hlow
    · exact (Nat.div_lt_iff_lt_mul (Nat.two_pow_pos e)).mpr hhigh

/-- One step of the fraction below one outweighs what rounding has added to the length: the
product is nearer to the number below the length. -/
theorem round_fraction_le_of_step {q e z : Nat} (hq : 2 ^ 52 ≤ q) (hq' : q < 2 ^ 53)
    (hz : z < 2 ^ 53) : round ((q + 1) * 2 ^ e * z) (2 ^ 53) ≤ q * 2 ^ e := by
  have hpow : 2 ^ (52 + e) ≤ q * 2 ^ e := by
    rw [Nat.pow_add]
    exact Nat.mul_le_mul_right _ hq
  by_cases hshort : (q + 1) * 2 ^ e * z / 2 ^ 53 < 2 ^ (52 + e)
  · exact Nat.le_trans (round_le_two_pow (Nat.two_pow_pos 53) hshort) hpow
  · have hlong : (q + 1) * 2 ^ e * z / 2 ^ 53 < 2 ^ (53 + e) := by
      have hlength : (q + 1) * 2 ^ e ≤ 2 ^ (53 + e) := by
        rw [Nat.pow_add]
        exact Nat.mul_le_mul_right _ hq'
      apply (Nat.div_lt_iff_lt_mul (Nat.two_pow_pos 53)).mpr
      exact Nat.mul_lt_mul_of_le_of_lt hlength hz (Nat.two_pow_pos _)
    rw [round, spacing_eq (Nat.not_lt.mp hshort) hlong]
    apply Nat.mul_le_mul_right
    apply nearest_le_of_lt (Nat.mul_pos (Nat.two_pow_pos 53) (Nat.two_pow_pos e))
    -- the product is below the middle of the two numbers around the length
    have hmiddle : 2 * ((q + 1) * z) < 2 ^ 53 * (2 * q + 1) := by
      have : (q + 1) * z ≤ (q + 1) * (2 ^ 53 - 1) := Nat.mul_le_mul_left _ (by omega)
      omega
    calc 2 * ((q + 1) * 2 ^ e * z) = 2 * ((q + 1) * z) * 2 ^ e := by grind
      _ < 2 ^ 53 * (2 * q + 1) * 2 ^ e := Nat.mul_lt_mul_of_pos_right hmiddle (Nat.two_pow_pos e)
      _ = 2 ^ 53 * 2 ^ e * (2 * q + 1) := Nat.mul_right_comm _ _ _

/-- **A fraction below one of a rounded length is not more than the length.** -/
theorem round_fraction_le (units : Nat) {z : Nat} (hz : z < 2 ^ 53) :
    round (round units 1 * z) (2 ^ 53) ≤ units := by
  rcases round_length units with hle | ⟨q, e, hq, hq', hfloor, hround⟩
  · have hself : round (round units 1 * z) (2 ^ 53) ≤ round units 1 :=
      round_le (Nat.two_pow_pos 53) (representable_round Nat.one_pos)
        (Nat.mul_le_mul_left _ (Nat.le_of_lt hz))
    exact Nat.le_trans hself hle
  · rw [hround]
    exact Nat.le_trans (round_fraction_le_of_step hq hq' hz) hfloor

end Lots.Binary64
