/-!
# Lots — sources of draws

Everything random in this library comes out of a `Source`: a state that answers a
request with an integer and a new state, or has no answer left. Each answer makes the
state strictly smaller. That is what ends every loop that draws until a condition
holds, such as a die that is rolled again on its maximum, without a bound of its own.
-/

namespace Lots

/-- What may be asked of a source. -/
inductive Request where
  /-- A natural number of so many bits. -/
  | bits (count : Nat)
  /-- An integer from `low` up to, not including, `high`. -/
  | range (low high : Int)
  /-- A fraction of one in units of 2^-53. -/
  | unit
deriving DecidableEq, Repr

/-- States that answer requests and shrink with each answer. -/
class Source (σ : Type) where
  /-- A bound on the answers left. -/
  size : σ → Nat
  /-- The answer to a request and the state after it. -/
  draw : Request → σ → Option (Int × σ)
  /-- An answer uses the state up. -/
  size_lt_of_draw : ∀ {request : Request} {s s' : σ} {z : Int},
    draw request s = some (z, s') → size s' < size s

/-- Computations that take draws from a source, and stop if it has none left. -/
abbrev Draw (σ α : Type) : Type := StateT σ Option α

namespace Source

variable {σ : Type} [Source σ]

def bits (count : Nat) : Draw σ Nat := fun s =>
  (draw (.bits count) s).map fun (z, s) => (z.toNat, s)

def range (low high : Int) : Draw σ Int :=
  draw (.range low high)

def below (n : Nat) : Draw σ Nat := fun s =>
  (draw (.range 0 n) s).map fun (z, s) => (z.toNat, s)

def unit : Draw σ Int :=
  draw .unit

theorem size_lt_of_below {n j : Nat} {s s' : σ} (h : below n s = some (j, s')) :
    size s' < size s := by
  simp only [below, Option.map_eq_some_iff] at h
  obtain ⟨⟨z, t⟩, hz, ht⟩ := h
  obtain ⟨-, rfl⟩ := Prod.mk.inj ht
  exact size_lt_of_draw hz

end Source

end Lots
