import Lots.Source

/-!
# Lots — the Mersenne Twister

The 32-bit Mersenne Twister with a state of 624 words, seeded by an integer of any
size through its key words. The state is a ring: the word at `index` is twisted just
before it is given out, and the index moves on, so no batch of words is ever made.

A twister gives out `horizon` words and no more, which makes it a `Source`: a loop that
waits for a suitable word ends. No run lives long enough to see the horizon.
-/

namespace Lots

/-- The words of a twister's state. -/
def Twister.ringSize : Nat := 624

/-- The state of a Mersenne Twister. -/
structure Twister where
  /-- The ring of words. -/
  words : Vector UInt32 Twister.ringSize
  /-- The word to be twisted next. -/
  index : Fin Twister.ringSize
  /-- How many words it will still give out. -/
  left : Nat
deriving DecidableEq

namespace Twister

instance : @NeZero Nat Zero.ofOfNat0 ringSize := ⟨by decide⟩

/-- The words that a fresh twister will give out. -/
def horizon : Nat := Nat.pow 2 62

/-! ## Words -/

/-- The word that takes a word's place: it joins the top bit of the word with the other
bits of its successor, and mixes them with the word 397 places ahead. -/
def twisted (words : Vector UInt32 ringSize) (index : Fin ringSize) : UInt32 :=
  let joined := (words[index] &&& 0x80000000) ||| (words[index + 1] &&& 0x7FFFFFFF)
  let mixed := words[index + 397] ^^^ (joined >>> 1)
  if joined &&& 1 = 0 then mixed else mixed ^^^ 0x9908B0DF

/-- A word of the ring as it is given out. -/
def tempered (word : UInt32) : UInt32 :=
  let word := word ^^^ (word >>> 11)
  let word := word ^^^ ((word <<< 7) &&& 0x9D2C5680)
  let word := word ^^^ ((word <<< 15) &&& 0xEFC60000)
  word ^^^ (word >>> 18)

def next (g : Twister) : Option (UInt32 × Twister) :=
  match g with
  | ⟨_, _, 0⟩ => none
  | ⟨words, index, left + 1⟩ =>
    let word := twisted words index
    some (tempered word, ⟨words.set index word, index + 1, left⟩)

theorem left_lt_of_next {g g' : Twister} {w : UInt32} (h : g.next = some (w, g')) :
    g'.left < g.left := by
  match g, h with
  | ⟨_, _, _ + 1⟩, h =>
    obtain ⟨-, rfl⟩ := Prod.mk.inj (Option.some.inj h)
    simp

/-! ## Draws -/

/-- A natural number of so many bits: the high bits of one word, or several words,
low word first. -/
def bits (count : Nat) (g : Twister) : Option (Nat × Twister) :=
  match g.next with
  | none => none
  | some (word, g) =>
    if count ≤ 32 then some (word.toNat >>> (32 - count), g)
    else
      match bits (count - 32) g with
      | none => none
      | some (high, g) => some (word.toNat + high * 0x100000000, g)
termination_by count

theorem left_lt_of_bits {count : Nat} {g g' : Twister} {x : Nat}
    (h : g.bits count = some (x, g')) : g'.left < g.left := by
  fun_induction bits count g generalizing x g' with
  | case1 => simp at h
  | case2 count g word g₁ hn hc =>
    obtain ⟨-, rfl⟩ := Prod.mk.inj (Option.some.inj h)
    exact left_lt_of_next hn
  | case3 => simp at h
  | case4 count g word g₁ hn hc high g₂ hb ih =>
    obtain ⟨-, rfl⟩ := Prod.mk.inj (Option.some.inj h)
    exact Nat.lt_trans (ih hb) (left_lt_of_next hn)

/-- A natural number below `n`: numbers of as many bits as `n` has, until one is below. -/
def below (n : Nat) (g : Twister) : Option (Nat × Twister) :=
  match _h : g.bits (n.log2 + 1) with
  | none => none
  | some (x, g') => if x < n then some (x, g') else below n g'
termination_by g.left
decreasing_by exact left_lt_of_bits _h

theorem left_lt_of_below {n x : Nat} {g g' : Twister} (h : g.below n = some (x, g')) :
    g'.left < g.left := by
  fun_induction below n g generalizing x g' with
  | case1 => simp at h
  | case2 g y g₁ hb _ =>
    obtain ⟨-, rfl⟩ := Prod.mk.inj (Option.some.inj h)
    exact left_lt_of_bits hb
  | case3 g y g₁ hb _ ih => exact Nat.lt_trans (ih h) (left_lt_of_bits hb)

/-- A fraction of one in units of 2^-53, from the high bits of two words. -/
def unit (g : Twister) : Option (Nat × Twister) := do
  let (high, g) ← g.bits 27
  let (low, g) ← g.bits 26
  return (high * Nat.pow 2 26 + low, g)

theorem left_lt_of_unit {x : Nat} {g g' : Twister} (h : g.unit = some (x, g')) :
    g'.left < g.left := by
  simp only [unit, bind, Option.bind_eq_some_iff, pure, Option.some.injEq, Prod.mk.injEq] at h
  obtain ⟨⟨_, g₁⟩, h₁, ⟨_, g₂⟩, h₂, -, rfl⟩ := h
  exact Nat.lt_trans (left_lt_of_bits h₂) (left_lt_of_bits h₁)

def draw : Request → Twister → Option (Int × Twister)
  | .bits count, g => (g.bits count).map fun (x, g) => (x, g)
  | .range low high, g => (g.below (high - low).toNat).map fun (x, g) => (low + x, g)
  | .unit, g => g.unit.map fun (x, g) => (x, g)

theorem left_lt_of_draw {request : Request} {g g' : Twister} {z : Int}
    (h : draw request g = some (z, g')) : g'.left < g.left := by
  cases request <;> simp only [draw, Option.map_eq_some_iff] at h <;>
    obtain ⟨⟨x, g₁⟩, hx, hg⟩ := h <;> obtain ⟨-, rfl⟩ := Prod.mk.inj hg
  · exact left_lt_of_bits hx
  · exact left_lt_of_below hx
  · exact left_lt_of_unit hx

instance : Source Twister where
  size := left
  draw := draw
  size_lt_of_draw := left_lt_of_draw

/-! ## Seeding -/

/-- The 32-bit words of a natural number, lowest first; zero has one word. -/
def keyWords (n : Nat) : List UInt32 :=
  if n < 0x100000000 then [n.toUInt32] else n.toUInt32 :: keyWords (n / 0x100000000)
termination_by n

/-- A ring in the making, and the place that is worked on. -/
structure Kneading where
  words : Vector UInt32 ringSize
  index : Fin ringSize

/-- Replaces a word by a function of itself and its scrambled predecessor, and moves on.
The first word is skipped: it takes the last word's value each time around. -/
def Kneading.step (k : Kneading) (factor : UInt32) (add : UInt32) : Kneading :=
  let before := k.words[k.index - 1]
  let word := (k.words[k.index] ^^^ ((before ^^^ (before >>> 30)) * factor)) + add
  let words := k.words.set k.index word
  if k.index + 1 = 0 then ⟨words.set 0 word, 1⟩ else ⟨words, k.index + 1⟩

/-- The ring that a single word grows into. -/
def grown (word : UInt32) : Vector UInt32 ringSize :=
  let start : Kneading := ⟨Vector.replicate ringSize word, 1⟩
  let grow := fun (k : Kneading) (_ : Nat) =>
    let before := k.words[k.index - 1]
    let word := (before ^^^ (before >>> 30)) * 1812433253 + k.index.val.toUInt32
    Kneading.mk (k.words.set k.index word) (k.index + 1)
  ((List.range 623).foldl grow start).words

/-- The twister whose seed is an integer: only its magnitude counts. Its key words are
worked into the ring again and again until ring and key are used up, and another round
spreads them. -/
def ofSeed (seed : Int) : Twister :=
  let key := (keyWords seed.natAbs).toArray
  let start : Kneading := ⟨grown 19650218, 1⟩
  let filled := (List.range (max ringSize key.size)).foldl (fun k step =>
    let j := step % key.size
    k.step 1664525 (key.getD j 0 + j.toUInt32)) start
  let spread := (List.range 623).foldl (fun k _ =>
    k.step 1566083941 (-k.index.val.toUInt32)) filled
  { words := spread.words.set 0 0x80000000, index := 0, left := horizon }

end Twister

end Lots
