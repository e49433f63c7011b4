import Lots.Interval.Notation
import Lots.Interval.Sampling
import Lots.Proofs.Binary64.Arithmetic
import Lots.Proofs.Numeral.Refusal
import Lots.Source.Tape
import Mathlib.Algebra.Ring.Int.Defs

/-!
# Lots — numbers drawn between floating-point ends

A drawn number is the low end plus a fraction of the length, and length, product and sum are
rounded. So the numbers follow the order of the fractions, never go below the low end, and pass the
high end only where the fraction is one, which happens where the high end alone is included. But a
small fraction may be lost in the last rounding, and then the low end is drawn, even if it is
excluded.

* **`Apart`** — the ends of an interval that was accepted: `apart_of_parse?`.
* **`Reached`** — the fractions that the draws may end with: `drawFloat_iff`.
* **`Apart.low_le`**, **`Apart.le_high`** — fractions of the length stay between the ends;
  `Apart.interpolate_mono` is their order.
* **`Sticks`**, **`Overshoots`** — the least fraction is lost, or the whole length goes too far.
* **`Apart.forall_within_iff`** — nothing else leads out of an interval, and only where the low end
  is excluded.
* **`floats_drawn`** — the same of the numbers that are drawn from an interval that was read.
-/

namespace Lots

instance decidableEqExcept {ε α : Type} [DecidableEq ε] [DecidableEq α] : DecidableEq (Except ε α)
  | .ok a, .ok b => decidable_of_iff (a = b) (by rw [Except.ok.injEq])
  | .error e, .error f => decidable_of_iff (e = f) (by rw [Except.error.injEq])
  | .ok _, .error _ => .isFalse nofun
  | .error _, .ok _ => .isFalse nofun

/-- A source that answers a request for a fraction with each number of 53 bits, and no other. -/
def Source.Fractions (σ : Type) [Source σ] : Prop :=
  ∀ z, (∃ s s' : σ, Source.draw .unit s = some (z, s')) ↔ 0 ≤ z ∧ z < 2 ^ 53

/-- Tapes answer so. -/
theorem Tape.fractions : Source.Fractions Tape := by
  intro z
  have hanswers := Tape.answers_iff .unit z
  simpa [Request.allows] using hanswers

namespace Source.Fractions

variable {σ : Type} [Source σ]

theorem of_draw (hsource : Source.Fractions σ) {s s' : σ} {z : Int}
    (h : Source.draw .unit s = some (z, s')) : ∃ n : Nat, z = n ∧ n < 2 ^ 53 := by
  obtain ⟨hnonneg, hlt⟩ := (hsource z).mp ⟨s, s', h⟩
  obtain ⟨n, rfl⟩ := Int.eq_ofNat_of_zero_le hnonneg
  exact ⟨n, rfl, by omega⟩

theorem exists_draw (hsource : Source.Fractions σ) {n : Nat} (h : n < 2 ^ 53) :
    ∃ s s' : σ, Source.draw .unit s = some ((n : Int), s') :=
  (hsource n).mpr ⟨by omega, by omega⟩

end Source.Fractions

namespace Interval

open Binary64 (ofFraction roundUnits)

variable {lowIncluded highIncluded : Bool} {low high : Binary64} {z z' : Nat}

/-! ## Ends -/

/-- Two ends with a finite length between them. -/
structure Apart (low high : Binary64) : Prop where
  properLow : low.Proper
  properHigh : high.Proper
  lt : low < high
  length : (high - low).isFinite = true

theorem NumberText.proper_of_floatValue {which : End} {n : NumberText} {x : Binary64}
    (h : n.floatValue which = .ok x) : x.Proper := by
  rw [floatValue] at h
  split at h
  · next hfinite =>
    cases h
    exact Binary64.proper_ofRatio (Nat.pow_pos (by decide)) hfinite
  · cases h

theorem Notation.apart_of_floatValue {start stop : NumberText} {i : Interval}
    (h : floatValue lowIncluded start stop highIncluded = .ok i)
    (hbounds : i.bounds = .floats low high) : Apart low high := by
  obtain ⟨first, hstart, h⟩ := bind_eq_ok_iff.mp h
  obtain ⟨last, hstop, h⟩ := bind_eq_ok_iff.mp h
  simp only [throw_bind] at h
  split at h
  · cases h
  next hlt =>
  split at h
  · cases h
  next hlength =>
  cases h
  cases hbounds
  refine ⟨NumberText.proper_of_floatValue hstart, NumberText.proper_of_floatValue hstop, ?_, ?_⟩
  · exact Decidable.not_not.mp hlt
  · simpa using hlength

theorem Notation.ints_of_intValue {start stop : NumberText} {i : Interval}
    (h : intValue lowIncluded start stop highIncluded = .ok i) :
    ∃ range, i.bounds = .ints range := by
  obtain ⟨first, -, h⟩ := bind_eq_ok_iff.mp h
  obtain ⟨last, -, h⟩ := bind_eq_ok_iff.mp h
  obtain ⟨range, -, h⟩ := bind_eq_ok_iff.mp h
  cases h
  exact ⟨range, rfl⟩

theorem apart_of_parse? {text : List Char} {i : Interval} (h : parse? text = some (.ok i))
    (hbounds : i.bounds = .floats low high) : Apart low high := by
  have hint : ∀ {range}, i.bounds ≠ .ints range := by
    intro range hints
    rw [hbounds] at hints
    cases hints
  obtain ⟨written, -, hvalue⟩ := Option.map_eq_some_iff.mp h
  cases written with
  | bare start stop inclusive =>
    obtain ⟨range, hints⟩ := Notation.ints_of_intValue hvalue
    exact absurd hints hint
  | bracket lowIncluded start between stop highIncluded =>
    simp only [Notation.value] at hvalue
    split at hvalue
    · exact Notation.apart_of_floatValue hvalue hbounds
    · obtain ⟨range, hints⟩ := Notation.ints_of_intValue hvalue
      exact absurd hints hint

/-! ## Fractions of the length -/

/-- The units between two ends. -/
def distance (low high : Binary64) : Nat :=
  (high.signedUnits - low.signedUnits).natAbs

namespace Apart

theorem sub_eq (h : Apart low high) :
    high - low = ⟨false, Binary64.round (distance low high) 1⟩ ∧ (high - low).Proper := by
  have hsub := Binary64.sub_of_lt h.properLow h.properHigh h.lt
  have hfinite := h.length
  rw [hsub] at hfinite ⊢
  exact ⟨(Binary64.round_of_isFinite hfinite).1, Binary64.proper_ofRatio Nat.one_pos hfinite⟩

/-- The rounded product is added to the low end, and the sum is rounded again. -/
theorem signedUnits_interpolate (h : Apart low high) (hz : z ≤ 2 ^ 53) :
    (interpolate low high (ofFraction z)).signedUnits =
      roundUnits (low.signedUnits +
        Binary64.round (Binary64.round (distance low high) 1 * z) (2 ^ 53)) := by
  obtain ⟨hsub, hproper⟩ := h.sub_eq
  rw [hsub] at hproper
  have hle := Binary64.round_le (Nat.two_pow_pos 53) hproper.representable
    (Nat.mul_le_mul_left _ hz)
  have hproduct : Binary64.Proper
      ⟨false, Binary64.round (Binary64.round (distance low high) 1 * z) (2 ^ 53)⟩ :=
    ⟨Nat.lt_of_le_of_lt hle hproper.finite, Binary64.representable_round (Nat.two_pow_pos 53)⟩
  rw [interpolate, hsub, Binary64.mul_ofFraction hproper hz,
    Binary64.signedUnits_add h.properLow hproduct]
  rfl

theorem low_le (h : Apart low high) (hz : z ≤ 2 ^ 53) :
    low ≤ interpolate low high (ofFraction z) := by
  rw [Binary64.le_iff, h.signedUnits_interpolate hz, ← h.properLow.roundUnits_eq]
  apply Binary64.roundUnits_mono
  rw [h.properLow.roundUnits_eq]
  omega

theorem interpolate_mono (h : Apart low high) (hle : z ≤ z') (hz' : z' ≤ 2 ^ 53) :
    interpolate low high (ofFraction z) ≤ interpolate low high (ofFraction z') := by
  rw [Binary64.le_iff, h.signedUnits_interpolate (Nat.le_trans hle hz'), h.signedUnits_interpolate hz']
  apply Binary64.roundUnits_mono
  have hround := Binary64.round_mono (Nat.two_pow_pos 53)
    (Nat.mul_le_mul_left (Binary64.round (distance low high) 1) hle)
  omega

/-- Fractions below one do not go past the high end, even if the length was rounded up. -/
theorem le_high (h : Apart low high) (hz : z < 2 ^ 53) :
    interpolate low high (ofFraction z) ≤ high := by
  have hlt : low.signedUnits < high.signedUnits := h.lt
  have hproduct := Binary64.round_fraction_le (distance low high) hz
  rw [Binary64.le_iff, h.signedUnits_interpolate (Nat.le_of_lt hz), ← h.properHigh.roundUnits_eq]
  apply Binary64.roundUnits_mono
  unfold distance at hproduct ⊢
  omega

end Apart

/-! ## Draws -/

/-- A fraction that the draws may end with, in units of 2^-53. -/
structure Reached (lowIncluded highIncluded : Bool) (low high : Binary64) (z : Nat) : Prop where
  pos : lowIncluded = false → 0 < z
  bound : z ≤ 2 ^ 53
  whole : z = 2 ^ 53 → lowIncluded = false ∧ highIncluded = true
  below : highIncluded = false → interpolate low high (ofFraction z) < high

theorem Reached.lt_of_lowIncluded (h : Reached true highIncluded low high z) : z < 2 ^ 53 := by
  apply Nat.lt_of_le_of_ne h.bound
  intro hwhole
  exact absurd (h.whole hwhole).1 nofun

theorem Reached.lt_of_highExcluded (h : Reached lowIncluded false low high z) : z < 2 ^ 53 := by
  apply Nat.lt_of_le_of_ne h.bound
  intro hwhole
  exact absurd (h.whole hwhole).2 nofun

section

variable {σ : Type} [Source σ] {x : Binary64}

theorem reached_of_drawBelow (hsource : Source.Fractions σ) {s s' : σ}
    (h : drawBelow lowIncluded low high s = some (x, s')) :
    ∃ z : Nat, Reached lowIncluded false low high z ∧
      x = interpolate low high (ofFraction z) := by
  fun_induction drawBelow lowIncluded low high s with
  | case1 s hdraw => cases h
  | case2 s z t hdraw x' hkept =>
    obtain ⟨hx, -⟩ := Prod.mk.inj (Option.some.inj h)
    obtain ⟨n, rfl, hn⟩ := hsource.of_draw hdraw
    simp only [Bool.and_eq_true, Bool.or_eq_true, bne_iff_ne, decide_eq_true_eq] at hkept
    refine ⟨n, ⟨?_, by omega, by omega, fun _ => hkept.2⟩, hx.symm⟩
    intro hexcluded
    rw [hexcluded] at hkept
    have hpos : (n : Int) ≠ 0 := hkept.1.resolve_left nofun
    omega
  | case3 s z t hdraw x' hagain ih => exact ih h

theorem exists_drawBelow (hsource : Source.Fractions σ)
    (h : Reached lowIncluded false low high z) :
    ∃ s s' : σ, drawBelow lowIncluded low high s =
      some (interpolate low high (ofFraction z), s') := by
  obtain ⟨s, s', hdraw⟩ := hsource.exists_draw h.lt_of_highExcluded
  have hkept : (lowIncluded || (z : Int) != 0) &&
      decide (interpolate low high (ofFraction z) < high) := by
    rw [decide_eq_true (h.below rfl), Bool.and_true]
    cases lowIncluded with
    | true => rfl
    | false =>
      have := h.pos rfl
      simpa using Nat.ne_of_gt this
  refine ⟨s, s', ?_⟩
  rw [drawBelow.eq_def]
  split
  · next hnone =>
    rw [hdraw] at hnone
    cases hnone
  · next hsome =>
    rw [hdraw] at hsome
    cases hsome
    exact if_pos hkept

/-- Between two included ends the first fraction decides. -/
theorem drawFloat_closed_iff (hsource : Source.Fractions σ) :
    (∃ s s' : σ, drawFloat true true low high s = some (x, s')) ↔
      ∃ z : Nat, Reached true true low high z ∧ x = interpolate low high (ofFraction z) := by
  simp only [drawFloat, Option.map_eq_some_iff]
  constructor
  · rintro ⟨s, s', ⟨z, t⟩, hdraw, hx⟩
    obtain ⟨hx, -⟩ := Prod.mk.inj hx
    obtain ⟨n, rfl, hn⟩ := hsource.of_draw hdraw
    exact ⟨n, ⟨nofun, by omega, by omega, nofun⟩, hx.symm⟩
  · rintro ⟨z, hreached, hx⟩
    obtain ⟨s, s', hdraw⟩ := hsource.exists_draw hreached.lt_of_lowIncluded
    exact ⟨s, s', (z, s'), hdraw, by rw [hx]⟩

/-- From an excluded to an included end the fraction is what the first one leaves of one. -/
theorem drawFloat_from_one_iff (hsource : Source.Fractions σ) :
    (∃ s s' : σ, drawFloat false true low high s = some (x, s')) ↔
      ∃ z : Nat, Reached false true low high z ∧ x = interpolate low high (ofFraction z) := by
  simp only [drawFloat, Option.map_eq_some_iff]
  constructor
  · rintro ⟨s, s', ⟨z, t⟩, hdraw, hx⟩
    obtain ⟨hx, -⟩ := Prod.mk.inj hx
    obtain ⟨n, rfl, hn⟩ := hsource.of_draw hdraw
    refine ⟨2 ^ 53 - n, ⟨fun _ => by omega, by omega, fun _ => ⟨rfl, rfl⟩, nofun⟩, ?_⟩
    rw [← hx, Binary64.one_sub_ofFraction hn]
  · rintro ⟨z, hreached, hx⟩
    have hleft : 2 ^ 53 - z < 2 ^ 53 := Nat.sub_lt (by decide) (hreached.pos rfl)
    obtain ⟨s, s', hdraw⟩ := hsource.exists_draw hleft
    refine ⟨s, s', ((2 ^ 53 - z : Nat), s'), hdraw, ?_⟩
    rw [Binary64.one_sub_ofFraction hleft, Nat.sub_sub_self hreached.bound, hx]

/-- What may be drawn are the numbers at these fractions. -/
theorem drawFloat_iff (hsource : Source.Fractions σ) :
    (∃ s s' : σ, drawFloat lowIncluded highIncluded low high s = some (x, s')) ↔
      ∃ z : Nat, Reached lowIncluded highIncluded low high z ∧
        x = interpolate low high (ofFraction z) := by
  cases highIncluded with
  | false =>
    constructor
    · rintro ⟨s, s', hdraw⟩
      exact reached_of_drawBelow hsource hdraw
    · rintro ⟨z, hreached, hx⟩
      rw [hx]
      exact exists_drawBelow hsource hreached
  | true =>
    cases lowIncluded with
    | true => exact drawFloat_closed_iff hsource
    | false => exact drawFloat_from_one_iff hsource

theorem draw_float_iff {i : Interval} (hbounds : i.bounds = .floats low high) {s s' : σ} :
    i.draw s = some (.float x, s') ↔
      drawFloat i.lowIncluded i.highIncluded low high s = some (x, s') := by
  simp [draw, hbounds, Option.map_eq_some_iff]

end

/-! ## Exclusion -/

/-- The number belongs to the interval between two ends, each of which may be excluded. -/
structure Within (lowIncluded highIncluded : Bool) (low high x : Binary64) : Prop where
  low : if lowIncluded then low ≤ x else low < x
  high : if highIncluded then x ≤ high else x < high

/-- The least fraction of the length is lost where it is added to the low end. -/
def Sticks (low high : Binary64) : Prop :=
  interpolate low high (ofFraction 1) ≤ low

/-- The whole length leads past the high end. -/
def Overshoots (low high : Binary64) : Prop :=
  high < interpolate low high .one

/-- The fractions of the length keep to the ends, apart from an excluded low end that is not left
and a high end that the whole length goes past. -/
theorem Reached.within (h : Reached lowIncluded highIncluded low high z) (hapart : Apart low high)
    (hsticks : lowIncluded = false → ¬ Sticks low high)
    (hover : lowIncluded = false → highIncluded = true → ¬ Overshoots low high) :
    Within lowIncluded highIncluded low high (interpolate low high (ofFraction z)) where
  low := by
    cases lowIncluded with
    | true => exact hapart.low_le h.bound
    | false =>
      have hleast : low < interpolate low high (ofFraction (1 : Nat)) :=
        Binary64.not_le.mp (hsticks rfl)
      have hmono := hapart.interpolate_mono (h.pos rfl) h.bound
      exact lt_of_lt_of_le hleast hmono
  high := by
    cases highIncluded with
    | false => exact h.below rfl
    | true =>
      by_cases hwhole : z = 2 ^ 53
      · obtain ⟨hexcluded, -⟩ := h.whole hwhole
        rw [hwhole, ← Binary64.one_eq_ofFraction]
        exact Binary64.not_lt.mp (hover hexcluded rfl)
      · exact hapart.le_high (Nat.lt_of_le_of_ne h.bound hwhole)

theorem Sticks.reached (h : Sticks low high) (hapart : Apart low high) :
    Reached lowIncluded highIncluded low high 1 :=
  ⟨fun _ => Nat.one_pos, by decide, fun hwhole => absurd hwhole (by decide),
    fun _ => lt_of_le_of_lt h hapart.lt⟩

theorem reached_one : Reached false true low high (2 ^ 53) :=
  ⟨fun _ => by decide, Nat.le_refl _, fun _ => ⟨rfl, rfl⟩, nofun⟩

/-- And these two do lead out of the interval. -/
theorem Apart.forall_within_iff (h : Apart low high) :
    (∀ z, Reached lowIncluded highIncluded low high z →
        Within lowIncluded highIncluded low high (interpolate low high (ofFraction z))) ↔
      lowIncluded = true ∨
        ¬ Sticks low high ∧ (highIncluded = true → ¬ Overshoots low high) := by
  constructor
  · intro hwithin
    cases lowIncluded with
    | true => exact .inl rfl
    | false =>
      refine .inr ⟨fun hsticks => ?_, ?_⟩
      · exact Binary64.not_le.mpr (hwithin 1 (hsticks.reached h)).low hsticks
      · rintro rfl hover
        have hle := (hwithin (2 ^ 53) reached_one).high
        rw [if_pos rfl, ← Binary64.one_eq_ofFraction] at hle
        exact Binary64.not_lt.mpr hle hover
  · intro hkept z hreached
    have hexcluded : lowIncluded = false →
        ¬ Sticks low high ∧ (highIncluded = true → ¬ Overshoots low high) :=
      fun hlow => hkept.resolve_left (by rw [hlow]; nofun)
    exact hreached.within h (fun hlow => (hexcluded hlow).1) fun hlow => (hexcluded hlow).2

/-- **Numbers drawn between floating-point ends keep to the ends as far as rounding allows.** From a
source that answers with every fraction, no drawn number is below the low end, none reaches an
excluded high end, and none is past the high end of a closed interval. All of them belong to the
interval exactly if its low end is included, or the least fraction moves away from it and, where
the high end is included, the whole length does not lead past that. -/
theorem floats_drawn {text : List Char} {i : Interval} {low high : Binary64}
    (h : parse? text = some (.ok i)) (hbounds : i.bounds = .floats low high) {σ : Type}
    [Source σ] (hsource : Source.Fractions σ) :
    (∀ (s s' : σ) x, i.draw s = some (.float x, s') →
      low ≤ x ∧ (i.highIncluded = false → x < high) ∧
        (i.lowIncluded = true → x ≤ high)) ∧
    ((∀ (s s' : σ) x, i.draw s = some (.float x, s') →
        Within i.lowIncluded i.highIncluded low high x) ↔
      i.lowIncluded = true ∨
        ¬ Sticks low high ∧ (i.highIncluded = true → ¬ Overshoots low high)) := by
  have hapart := apart_of_parse? h hbounds
  have hdrawn : ∀ x, (∃ s s' : σ, i.draw s = some (.float x, s')) ↔
      ∃ z : Nat, Reached i.lowIncluded i.highIncluded low high z ∧
        x = interpolate low high (ofFraction z) := by
    intro x
    simp only [draw_float_iff hbounds]
    exact drawFloat_iff hsource
  constructor
  · intro s s' x hdraw
    obtain ⟨z, hreached, hx⟩ := (hdrawn x).mp ⟨s, s', hdraw⟩
    rw [hx]
    refine ⟨hapart.low_le hreached.bound, hreached.below, fun hincluded => ?_⟩
    rw [hincluded] at hreached
    exact hapart.le_high hreached.lt_of_lowIncluded
  · rw [← hapart.forall_within_iff]
    constructor
    · intro hwithin z hreached
      obtain ⟨s, s', hdraw⟩ := (hdrawn _).mpr ⟨z, hreached, rfl⟩
      exact hwithin s s' _ hdraw
    · intro hwithin s s' x hdraw
      obtain ⟨z, hreached, hx⟩ := (hdrawn x).mp ⟨s, s', hdraw⟩
      rw [hx]
      exact hwithin z hreached

/-- All numbers drawn from zero up to one belong to the interval, as its low end is included. -/
theorem floats_drawn_from_zero :
    let i : Interval := ⟨true, false, .floats .zero .one⟩
    parse? "[0, 1)".toList = some (.ok i) ∧
      ∀ (s s' : Tape) x, i.draw s = some (.float x, s') → Within true false .zero .one x := by
  intro i
  have hparse : parse? "[0, 1)".toList = some (.ok i) := by decide +kernel
  obtain ⟨-, hwithin⟩ := floats_drawn hparse rfl Tape.fractions
  exact ⟨hparse, hwithin.mpr (.inl rfl)⟩

/-- An excluded low end is drawn, and a number past an included high end. -/
theorem floats_drawn_outside :
    (∃ i low high, parse? "(1, 2)".toList = some (.ok i) ∧ i.bounds = .floats low high ∧
      i.draw (⟨[(.unit, 1)]⟩ : Tape) = some (.float low, ⟨[]⟩) ∧
      ¬ Within i.lowIncluded i.highIncluded low high low) ∧
    (∃ i low high x, parse? "(-1, 0.0000000000000002]".toList = some (.ok i) ∧
      i.bounds = .floats low high ∧
      i.draw (⟨[(.unit, 0)]⟩ : Tape) = some (.float x, ⟨[]⟩) ∧
      ¬ Within i.lowIncluded i.highIncluded low high x) := by
  constructor
  · refine ⟨⟨false, false, .floats .one ⟨false, 2 * Binary64.oneUnits⟩⟩, _, _,
      by decide +kernel, rfl, ?_, ?_⟩
    · rw [draw_float_iff rfl, drawFloat, drawBelow.eq_def]
      decide +kernel
    · intro hwithin
      exact absurd hwithin.low (by decide +kernel)
  · refine ⟨⟨false, true, .floats ⟨true, Binary64.oneUnits⟩ (.ofDecimal false ['2'] 16)⟩, _, _,
      ⟨false, Nat.pow 2 1022⟩, by decide +kernel, rfl, by decide +kernel, ?_⟩
    intro hwithin
    exact absurd hwithin.high (by decide +kernel)

end Interval

end Lots
