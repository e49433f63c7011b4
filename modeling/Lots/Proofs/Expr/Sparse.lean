import Lots.Proofs.Numeral.Refusal
import Lots.Proofs.Sample.Values

/-!
# Lots — numbers as expressions

A notation needs a letter, a bracket or two points. Numbers are printed without these, so a
printed number is never refused as an expression, however many digits it has.

* **`Text.Sparse`** — texts without such letters and brackets and with few points; they are put
  together like the points are counted.
* **`Number.sparse_text`** — printed numbers have one point at most.
* **`Expr.parse_ne_error`** — texts with one point at most are refused by no notation.
-/

namespace Lots

namespace Text

/-- The characters that one of the notations cannot do without, but for the points. -/
def marks : List Char :=
  ['d', '(', '[']

/-- A text without marks and with so many points at most. -/
structure Sparse (points : Nat) (s : List Char) : Prop where
  unmarked : ∀ c ∈ s, c ∉ marks
  count_le : s.count '.' ≤ points

namespace Sparse

variable {m n : Nat} {s t : List Char}

theorem append (hs : Sparse m s) (ht : Sparse n t) : Sparse (m + n) (s ++ t) where
  unmarked := List.forall_mem_append.mpr ⟨hs.unmarked, ht.unmarked⟩
  count_le := by
    rw [List.count_append]
    exact Nat.add_le_add hs.count_le ht.count_le

theorem cons {c : Char} (hc : c ∉ marks) (hpoint : c ≠ '.') (hs : Sparse n s) :
    Sparse n (c :: s) where
  unmarked := List.forall_mem_cons.mpr ⟨hc, hs.unmarked⟩
  count_le := by
    rw [List.count_cons_of_ne hpoint]
    exact hs.count_le

theorem point (hs : Sparse n s) : Sparse (n + 1) ('.' :: s) where
  unmarked := List.forall_mem_cons.mpr ⟨by decide, hs.unmarked⟩
  count_le := by
    rw [List.count_cons_self]
    exact Nat.succ_le_succ hs.count_le

theorem mono (hs : Sparse m s) (h : m ≤ n) : Sparse n s :=
  ⟨hs.unmarked, Nat.le_trans hs.count_le h⟩

theorem sublist (ht : Sparse n t) (h : s.Sublist t) : Sparse n s :=
  ⟨fun c hc => ht.unmarked c (h.subset hc), Nat.le_trans (h.count_le '.') ht.count_le⟩

theorem digits (hs : Digits s) : Sparse 0 s where
  unmarked c hc hmark := by
    have hnone : ∀ d ∈ marks, d.isDigit = false := by simp [marks]
    exact absurd (hs c hc) (by simp [hnone c hmark])
  count_le := by
    have hpoint : '.' ∉ s := fun hmem => absurd (hs '.' hmem) (by decide)
    exact Nat.le_of_eq (List.count_eq_zero.mpr hpoint)

end Sparse

end Text

open Text (Sparse)

/-! ## Printed numbers -/

theorem Numeral.sparse_intText (z : Int) : Sparse 0 (intText z) := by
  have hdigits := Sparse.digits (digits_text z.natAbs)
  unfold intText
  split
  · exact hdigits.cons (by decide) (by decide)
  · exact hdigits

namespace Binary64

theorem sparse_zeros (count : Nat) : Sparse 0 (zeros count) := by
  apply Sparse.digits
  intro c hc
  rw [List.eq_of_mem_replicate hc]
  rfl

theorem sparse_significant {digits : List Char} (h : Sparse 0 digits) :
    Sparse 0 (significant digits) := by
  unfold significant
  split
  · exact sparse_zeros 1
  · have hkept : (digits.reverse.dropWhile (· == '0')).reverse.Sublist digits := by
      simpa using (List.dropWhile_sublist (· == '0') (l := digits.reverse)).reverse
    exact h.sublist hkept

theorem sparse_positional {digits : List Char} (h : Sparse 0 digits) (power : Int) :
    Sparse 1 (positional digits power) := by
  unfold positional
  split
  · -- all digits stand behind the point
    have hfraction := ((sparse_zeros (power.natAbs - 1)).append h).point
    exact hfraction.cons (by decide) (by decide)
  · -- the digits in front of the point, filled up with zeros, and the others behind it
    dsimp only
    have hwhole := (h.sublist (List.take_sublist (power.toNat + 1) digits)).append
      (sparse_zeros (power.toNat + 1 - digits.length))
    have hfraction : Sparse 0 (if (digits.drop (power.toNat + 1)).isEmpty then ['0']
        else digits.drop (power.toNat + 1)) := by
      split
      · exact sparse_zeros 1
      · exact h.sublist (List.drop_sublist _ digits)
    exact hwhole.append hfraction.point

theorem sparse_exponential {digits : List Char} (h : Sparse 0 digits) (power : Int) :
    Sparse 1 (exponential digits power) := by
  have hsign : (if power < 0 then '-' else '+') ∉ Text.marks ∧
      (if power < 0 then '-' else '+') ≠ '.' := by
    split <;> decide
  have hpadding : Sparse 0 ('e' :: (if power < 0 then '-' else '+') ::
      zeros (2 - (Numeral.text power.natAbs).length)) :=
    ((sparse_zeros _).cons hsign.1 hsign.2).cons (by decide) (by decide)
  have hexponent := Sparse.digits (Numeral.digits_text power.natAbs)
  unfold exponential
  split
  · next first second rest =>
    have hfirst : Sparse 0 [first] := h.sublist (by simp)
    have hrest : Sparse 0 (second :: rest) := h.sublist (List.sublist_cons_self _ _)
    exact ((hfirst.append hrest.point).append hpadding).append hexponent
  · exact ((h.mono (Nat.zero_le 1)).append hpadding).append hexponent

theorem sparse_text (x : Binary64) : Sparse 1 x.text := by
  have hunits : Sparse 1 (unitsText x.units) := by
    unfold unitsText
    split
    · exact ⟨by simp [Text.marks], by simp⟩
    split
    · exact ⟨by simp [Text.marks], by simp⟩
    · have hdigits := sparse_significant
        (Sparse.digits (Numeral.digits_text (shortest x.units).value))
      dsimp only
      split
      · exact sparse_positional hdigits _
      · exact sparse_exponential hdigits _
  unfold text
  split
  · exact hunits.cons (by decide) (by decide)
  · exact hunits

end Binary64

/-- **Printed numbers are sparse**: no letter that stands for dice, no bracket and one point at
most. -/
theorem Number.sparse_text (number : Number) : Sparse 1 number.text := by
  cases number with
  | int z => exact (Numeral.sparse_intText z).mono (Nat.zero_le 1)
  | float x => exact x.sparse_text

/-! ## Notations -/

theorem Roll.Notation.Writes.mem_marks {written : Roll.Notation} {text : List Char}
    (h : Writes written text) : 'd' ∈ text := by
  cases h
  simp

theorem Interval.Notation.Writes.mark_or_points {written : Interval.Notation} {text : List Char}
    (h : Writes written text) : (∃ c ∈ text, c ∈ Text.marks) ∨ 2 ≤ text.count '.' := by
  cases h with
  | @bare start stop inclusive s t hstart hstop =>
    have hdots : (betweenText (dotsBetween inclusive)).count '.' = 2 := by
      cases inclusive <;> rfl
    right
    rw [List.count_append, List.count_append, hdots]
    omega
  | @bracket start stop low high between s t gap₀ gap₁ gap₂ gap₃ gap₄ gap₅ hstart hstop =>
    have hopen : openChar low ∈ Text.marks := by
      cases low <;> decide
    exact .inl ⟨openChar low, by simp, hopen⟩

/-- **A sparse text is refused by no notation**, since it is in none. -/
theorem Expr.parse_ne_error {text : List Char} (h : Sparse 1 text) (cause : Expr.Error) :
    Expr.parse text ≠ .error cause := by
  intro herror
  unfold Expr.parse at herror
  split at herror
  · cases herror
  · cases herror
  · next refused _ hroll =>
    obtain ⟨written, hwritten, -⟩ := Option.map_eq_some_iff.mp hroll
    have hletter := (Roll.Notation.writes_of_ofText? hwritten).mem_marks
    exact h.unmarked 'd' hletter (by decide)
  · cases herror
  · next refused _ _ hinterval =>
    obtain ⟨written, hwritten, -⟩ := Option.map_eq_some_iff.mp hinterval
    rcases (Interval.Notation.writes_of_ofText? hwritten).mark_or_points with
      ⟨c, hc, hmark⟩ | hpoints
    · exact h.unmarked c hc hmark
    · exact absurd h.count_le (Nat.not_le.mpr hpoints)
  · cases herror

end Lots
