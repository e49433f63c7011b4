import Lots.Proofs.Expr.Sparse
import Lots.Sample
import Lots.Source.Twister

/-!
# Lots — how long drawn values are

What a twister draws is a byte where a byte is asked for. So colors and identifiers have two
digits for each byte, and with coins they are the short values. The other values are numbers,
which may have many digits, but are sparse.

* **`Twister.lt_of_bits`** — as many bits as are asked for.
* **`Sample.length_value_color`**, **`Sample.length_uuidText_le`** — two digits for each byte.
* **`Sample.short_or_sparse`** — the two kinds of values.
-/

namespace Lots

open Text (Sparse)

/-! ## Bytes -/

/-- A number of so many bits has so many bits. -/
theorem Twister.lt_of_bits {count x : Nat} {g g' : Twister} (hcount : count ≤ 32)
    (h : g.bits count = some (x, g')) : x < 2 ^ count := by
  unfold bits at h
  split at h
  · cases h
  · next word next hnext =>
    rw [if_pos hcount] at h
    cases h
    -- the upper bits of a word are the word without its lower ones
    rw [Nat.shiftRight_eq_div_pow, Nat.div_lt_iff_lt_mul (Nat.two_pow_pos _), ← Nat.pow_add,
      Nat.add_sub_cancel' hcount]
    exact word.toNat_lt

theorem byte_of_bits {x : Nat} {g g' : Twister}
    (h : (Source.bits 8 : Draw Twister Nat) g = some (x, g')) : x < 256 := by
  obtain ⟨⟨z, t⟩, hdraw, hx⟩ := Option.map_eq_some_iff.mp h
  obtain ⟨⟨y, u⟩, hbits, hz⟩ := Option.map_eq_some_iff.mp hdraw
  cases hz
  cases hx
  exact Twister.lt_of_bits (by decide) hbits

theorem bytes_of_drawBytes {count : Nat} {bytes : List Nat} {g g' : Twister}
    (h : (drawBytes count : Draw Twister (List Nat)) g = some (bytes, g')) :
    ∀ byte ∈ bytes, byte < 256 := by
  induction count generalizing bytes g with
  | zero =>
    cases h
    exact List.forall_mem_nil _
  | succ count ih =>
    obtain ⟨⟨byte, t⟩, hbyte, h⟩ := Option.bind_eq_some_iff.mp h
    obtain ⟨⟨rest, u⟩, hrest, h⟩ := Option.bind_eq_some_iff.mp h
    cases h
    exact List.forall_mem_cons.mpr ⟨byte_of_bits hbyte, ih hrest⟩

theorem bytes_modify {bytes : List Nat} (h : ∀ byte ∈ bytes, byte < 256) (i : Nat) {f : Nat → Nat}
    (hf : ∀ byte, f byte < 256) : ∀ byte ∈ bytes.modify i f, byte < 256 := by
  intro byte hbyte
  obtain ⟨j, hj, rfl⟩ := List.mem_iff_getElem.mp hbyte
  rw [List.getElem_modify]
  split
  · exact hf _
  · exact h _ (List.getElem_mem _)

theorem bytes_stampUuid {bytes : List Nat} (h : ∀ byte ∈ bytes, byte < 256) :
    ∀ byte ∈ stampUuid bytes, byte < 256 :=
  bytes_modify (bytes_modify h 6 fun byte => by omega) 8 fun byte => by omega

/-! ## Digits of bytes -/

theorem Numeral.length_hexText {byte : Nat} (h : byte < 256) : (hexText 2 byte).length = 2 := by
  have hdigits : (Nat.toDigits 16 byte).length ≤ 2 :=
    (Nat.length_toDigits_le_iff (by decide) (by decide)).mpr h
  simp only [hexText, List.length_append, List.length_replicate]
  omega

namespace Sample

theorem length_componentText {byte : Nat} (h : byte < 256) : (componentText byte).length = 2 := by
  rw [componentText, List.length_map, Numeral.length_hexText h]

theorem length_value_color {red green blue : Nat} (hred : red < 256) (hgreen : green < 256)
    (hblue : blue < 256) : (color red green blue).value.length = 7 := by
  simp [value, length_componentText, hred, hgreen, hblue]

theorem length_flatMap_hexText {bytes : List Nat} (h : ∀ byte ∈ bytes, byte < 256) :
    (bytes.flatMap (Numeral.hexText 2)).length = 2 * bytes.length := by
  induction bytes with
  | nil => rfl
  | cons byte rest ih =>
    obtain ⟨hbyte, hrest⟩ := List.forall_mem_cons.mp h
    rw [List.flatMap_cons, List.length_append, Numeral.length_hexText hbyte, ih hrest,
      List.length_cons]
    omega

theorem length_uuidText_le {bytes : List Nat} (h : ∀ byte ∈ bytes, byte < 256) :
    (uuidText bytes).length ≤ 36 := by
  have hgroup : ∀ start count : Nat,
      (((bytes.drop start).take count).flatMap (Numeral.hexText 2)).length ≤ 2 * count := by
    intro start count
    have hbytes : ∀ byte ∈ (bytes.drop start).take count, byte < 256 :=
      fun byte hbyte => h byte (List.mem_of_mem_drop (List.mem_of_mem_take hbyte))
    rw [length_flatMap_hexText hbytes]
    exact Nat.mul_le_mul_left 2 (List.length_take_le _ _)
  -- five groups of digits, and four hyphens between them
  have h₀ := hgroup 0 4
  have h₁ := hgroup 4 2
  have h₂ := hgroup 6 2
  have h₃ := hgroup 8 2
  have h₄ := hgroup 10 6
  simp only [uuidText, List.intercalate, List.intersperse, List.flatten_cons, List.flatten_nil,
    List.length_append, List.length_cons, List.length_nil]
  omega

/-- **Drawn values are short or sparse**: the numbers are sparse, and the others are short. -/
theorem short_or_sparse {expr : Expr} {sample : Sample} {g g' : Twister}
    (h : expr.evaluate g = some (sample, g')) (hno : ∀ t, sample ≠ .text t) :
    sample.value.length ≤ 36 ∨ Sparse 1 sample.value := by
  cases expr with
  | text t =>
    cases h
    exact absurd rfl (hno t)
  | coin =>
    obtain ⟨⟨bit, t⟩, -, h⟩ := Option.bind_eq_some_iff.mp h
    cases h
    left
    cases bit != 0 <;> decide
  | color =>
    obtain ⟨⟨red, t⟩, hred, h⟩ := Option.bind_eq_some_iff.mp h
    obtain ⟨⟨green, u⟩, hgreen, h⟩ := Option.bind_eq_some_iff.mp h
    obtain ⟨⟨blue, v⟩, hblue, h⟩ := Option.bind_eq_some_iff.mp h
    cases h
    left
    rw [length_value_color (byte_of_bits hred) (byte_of_bits hgreen) (byte_of_bits hblue)]
    decide
  | uuid =>
    obtain ⟨⟨bytes, t⟩, hbytes, h⟩ := Option.bind_eq_some_iff.mp h
    cases h
    exact .inl (length_uuidText_le (bytes_stampUuid (bytes_of_drawBytes hbytes)))
  | dice roll =>
    obtain ⟨⟨outcome, t⟩, -, h⟩ := Option.bind_eq_some_iff.mp h
    cases h
    exact .inr ((Numeral.sparse_intText outcome.total).mono (Nat.zero_le 1))
  | interval i =>
    obtain ⟨⟨number, t⟩, -, h⟩ := Option.bind_eq_some_iff.mp h
    cases h
    exact .inr number.sparse_text

end Sample

end Lots
