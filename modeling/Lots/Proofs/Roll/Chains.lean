import Lots.Roll.Outcome
import Lots.Source.Tape

/-!
# Lots — the draws of a roll

A die that explodes is followed by one more die, so a roll takes chains of draws from its source:
for each die a row of draws on which it explodes, and a final one. It takes as many chains as it has
dice, whatever is drawn, and nothing behind the last of them.

* **`Roll.Final`** — a draw after which a die does not explode.
* **`Roll.Chains`** — rows of draws that make up so many chains.
* **`Roll.draw_eq_some_iff`** — a roll takes these rows from any source, and no others.
* **`Roll.Shortest`** — the shortest beginning of some draws with so many final ones; the chains
  that draws begin with are this beginning (`Roll.Chains.shortest`).
* **`Roll.draw_takes_shortest`** — from given draws a roll takes this beginning, and leaves the
  rest.
-/

namespace Lots

/-- A source answers a request again and again with these integers, and is in this state after. -/
inductive Source.Gives {σ : Type} [Source σ] (request : Request) : σ → List Int → σ → Prop where
  | nil {s : σ} : Gives request s [] s
  | cons {s t u : σ} {z : Int} {zs : List Int} (hdraw : Source.draw request s = some (z, t))
      (hrest : Gives request t zs u) : Gives request s (z :: zs) u

/-- The first of what a source gives is its next answer. -/
theorem Source.gives_cons_iff {σ : Type} [Source σ] {request : Request} {s t s' : σ} {x z : Int}
    {zs : List Int} (hdraw : Source.draw request s = some (z, t)) :
    Source.Gives request s (x :: zs) s' ↔ x = z ∧ Source.Gives request t zs s' := by
  constructor
  · intro h
    cases h with
    | cons hfirst hrest =>
      rw [hdraw] at hfirst
      cases hfirst
      exact ⟨rfl, hrest⟩
  · rintro ⟨rfl, hrest⟩
    exact .cons hdraw hrest

namespace Roll

variable {roll : Roll} {n : Nat} {zs draws : List Int}

/-- The draw is the last one of its die: dice do not explode, or it is not the maximum. A die with
one side does not explode. -/
def Final (roll : Roll) (z : Int) : Prop :=
  roll.exploding = false ∨ roll.sides = 1 ∨ z ≠ roll.sides

instance (roll : Roll) (z : Int) : Decidable (roll.Final z) :=
  inferInstanceAs (Decidable (_ ∨ _))

/-- How many of some draws are final. -/
def finals (roll : Roll) (zs : List Int) : Nat :=
  zs.countP (decide <| roll.Final ·)

/-- Draws that make up so many chains: each ends with its one final draw. -/
inductive Chains (roll : Roll) : Nat → List Int → Prop where
  | nil : Chains roll 0 []
  | final {n : Nat} {z : Int} {zs : List Int} (hz : roll.Final z) (hrest : Chains roll n zs) :
      Chains roll (n + 1) (z :: zs)
  | again {n : Nat} {z : Int} {zs : List Int} (hz : ¬ roll.Final z)
      (hrest : Chains roll (n + 1) zs) : Chains roll (n + 1) (z :: zs)

/-- What a die of this roll is asked from a source. -/
def dieRequest (roll : Roll) : Request :=
  .range 1 (roll.sides + 1)

/-! ## Rolling -/

theorem explodes_on_iff (hsides : 1 ≤ roll.sides) (z : Int) :
    (roll.explodes && z == roll.sides) = true ↔ ¬ roll.Final z := by
  have hmore : roll.sides ≠ 1 ↔ 1 < roll.sides := by omega
  simp [explodes, Final, hmore, and_assoc]

variable {σ : Type} [Source σ]

/-- **Rolling takes so many chains from its source**, and the dice are all of their draws. Induction
on the rolling, die by die. -/
theorem rollDice_eq_some_iff (hsides : 1 ≤ roll.sides) {dice all : Array Int} {s s' : σ} :
    rollDice roll n dice s = some (all, s') ↔
      ∃ zs, Chains roll n zs ∧ Source.Gives roll.dieRequest s zs s' ∧
        all.toList = dice.toList ++ zs := by
  fun_induction rollDice roll n dice s with
  | case1 dice s =>
    constructor
    · rintro ⟨⟩
      exact ⟨[], .nil, .nil, (List.append_nil _).symm⟩
    · rintro ⟨zs, hchains, hgives, hall⟩
      cases hchains
      cases hgives
      rw [List.append_nil, Array.toList_inj] at hall
      rw [hall]
  | case2 dice s more hnone =>
    constructor
    · nofun
    · rintro ⟨zs, hchains, hgives, -⟩
      -- there is a first draw, which the source does not have
      cases hgives with
      | nil => cases hchains
      | cons hdraw =>
        rw [dieRequest, hnone] at hdraw
        cases hdraw
  | case3 dice s more z t hdraw hexplodes ih =>
    have hagain : ¬ roll.Final z := (explodes_on_iff hsides z).mp hexplodes
    rw [ih]
    constructor
    · rintro ⟨zs, hchains, hgives, hall⟩
      exact ⟨z :: zs, .again hagain hchains, .cons hdraw hgives, by simpa using hall⟩
    · rintro ⟨zs, hchains, hgives, hall⟩
      cases hchains with
      | final hz =>
        obtain ⟨rfl, -⟩ := (Source.gives_cons_iff hdraw).mp hgives
        exact absurd hz hagain
      | @again _ _ zs _ hrest =>
        obtain ⟨rfl, hgives⟩ := (Source.gives_cons_iff hdraw).mp hgives
        exact ⟨zs, hrest, hgives, by simpa using hall⟩
  | case4 dice s more z t hdraw hexplodes ih =>
    have hfinal : roll.Final z :=
      Decidable.not_not.mp fun hagain => hexplodes ((explodes_on_iff hsides z).mpr hagain)
    rw [ih]
    constructor
    · rintro ⟨zs, hchains, hgives, hall⟩
      exact ⟨z :: zs, .final hfinal hchains, .cons hdraw hgives, by simpa using hall⟩
    · rintro ⟨zs, hchains, hgives, hall⟩
      cases hchains with
      | @final _ _ zs _ hrest =>
        obtain ⟨rfl, hgives⟩ := (Source.gives_cons_iff hdraw).mp hgives
        exact ⟨zs, hrest, hgives, by simpa using hall⟩
      | again hz =>
        obtain ⟨rfl, -⟩ := (Source.gives_cons_iff hdraw).mp hgives
        exact absurd hfinal hz

/-- A roll shows the chains it takes. -/
theorem draw_eq_some_iff (hsides : 1 ≤ roll.sides) {o : RollOutcome} {s s' : σ} :
    roll.draw s = some (o, s') ↔
      ∃ zs, Chains roll roll.amount zs ∧ Source.Gives roll.dieRequest s zs s' ∧
        o = ⟨roll, roll.arrange zs⟩ := by
  simp only [draw, Option.map_eq_some_iff, Prod.exists, Prod.mk.injEq]
  constructor
  · rintro ⟨all, t, hroll, rfl, rfl⟩
    obtain ⟨zs, hchains, hgives, hall⟩ := (rollDice_eq_some_iff hsides).mp hroll
    rw [hall]
    exact ⟨zs, hchains, hgives, rfl⟩
  · rintro ⟨zs, hchains, hgives, rfl⟩
    have hroll : rollDice roll roll.amount #[] s = some (zs.toArray, s') :=
      (rollDice_eq_some_iff hsides).mpr ⟨zs, hchains, hgives, rfl⟩
    exact ⟨zs.toArray, s', hroll, rfl, rfl⟩

/-! ## Chains -/

theorem finals_cons_of_final {z : Int} (hz : roll.Final z) :
    roll.finals (z :: zs) = roll.finals zs + 1 :=
  List.countP_cons_of_pos (decide_eq_true hz)

theorem finals_cons_of_not_final {z : Int} (hz : ¬ roll.Final z) :
    roll.finals (z :: zs) = roll.finals zs :=
  List.countP_cons_of_neg (by simpa using hz)

namespace Chains

theorem finals_eq (h : Chains roll n zs) : roll.finals zs = n := by
  induction h with
  | nil => rfl
  | final hz _ ih => rw [finals_cons_of_final hz, ih]
  | again hz _ ih => rw [finals_cons_of_not_final hz, ih]

/-- A beginning of chains with as many final draws is all of them. -/
theorem eq_of_prefix {t : List Int} (h : Chains roll n zs) (ht : t <+: zs)
    (hn : n ≤ roll.finals t) : t = zs := by
  induction h generalizing t with
  | nil => exact List.prefix_nil.mp ht
  | @final n z zs hz _ ih =>
    rcases List.prefix_cons_iff.mp ht with rfl | ⟨t, rfl, hrest⟩
    · exact absurd hn (Nat.not_succ_le_zero n)
    · rw [finals_cons_of_final hz] at hn
      rw [ih hrest (Nat.le_of_succ_le_succ hn)]
  | @again n z zs hz _ ih =>
    rcases List.prefix_cons_iff.mp ht with rfl | ⟨t, rfl, hrest⟩
    · exact absurd hn (Nat.not_succ_le_zero n)
    · rw [finals_cons_of_not_final hz] at hn
      rw [ih hrest hn]

/-- The last draw of the last chain is final. -/
theorem final_of_mem_getLast? {z : Int} (h : Chains roll n zs) (hz : z ∈ zs.getLast?) :
    roll.Final z := by
  induction h with
  | nil => cases hz
  | @final n x zs hx hrest ih =>
    cases zs with
    | nil =>
      cases hz
      exact hx
    | cons y zs =>
      rw [List.getLast?_cons_cons] at hz
      exact ih hz
  | @again n x zs hx hrest ih =>
    cases zs with
    | nil => cases hrest
    | cons y zs =>
      rw [List.getLast?_cons_cons] at hz
      exact ih hz

theorem le_length (h : Chains roll n zs) : n ≤ zs.length := by
  rw [← h.finals_eq]
  exact List.countP_le_length

/-- Chains without explosions are single draws. -/
theorem length_eq (h : Chains roll n zs) (hfinal : ∀ z ∈ zs, roll.Final z) : zs.length = n := by
  rw [← h.finals_eq]
  exact (List.countP_eq_length.mpr fun z hz => decide_eq_true (hfinal z hz)).symm

end Chains

/-- Draws with enough final ones begin with so many chains. -/
theorem exists_chains (h : n ≤ roll.finals draws) :
    ∃ zs rest, draws = zs ++ rest ∧ Chains roll n zs := by
  induction draws generalizing n with
  | nil =>
    obtain rfl : n = 0 := Nat.le_zero.mp h
    exact ⟨[], [], rfl, .nil⟩
  | cons z draws ih =>
    cases n with
    | zero => exact ⟨[], z :: draws, rfl, .nil⟩
    | succ n =>
      by_cases hz : roll.Final z
      · rw [finals_cons_of_final hz] at h
        obtain ⟨zs, rest, rfl, hchains⟩ := ih (Nat.le_of_succ_le_succ h)
        exact ⟨z :: zs, rest, rfl, .final hz hchains⟩
      · rw [finals_cons_of_not_final hz] at h
        obtain ⟨zs, rest, rfl, hchains⟩ := ih h
        exact ⟨z :: zs, rest, rfl, .again hz hchains⟩

/-- The shortest beginning of draws with so many final ones. -/
structure Shortest (roll : Roll) (n : Nat) (draws used : List Int) : Prop where
  initial : used <+: draws
  enough : roll.finals used = n
  least : ∀ t, t <+: draws → n ≤ roll.finals t → used.length ≤ t.length

/-- The chains that draws begin with are their shortest beginning with as many final draws. -/
theorem Chains.shortest {rest : List Int} (h : Chains roll n zs) :
    Shortest roll n (zs ++ rest) zs where
  initial := List.prefix_append zs rest
  enough := h.finals_eq
  least t ht hn := by
    rcases Nat.lt_or_ge t.length zs.length with hlt | hge
    · have hshort := List.prefix_of_prefix_length_le ht (List.prefix_append zs rest) (Nat.le_of_lt hlt)
      rw [h.eq_of_prefix hshort hn] at hlt
      exact absurd hlt (Nat.lt_irrefl _)
    · exact hge

/-! ## Given draws -/

/-- The tape on which dice of this roll have given these draws. -/
def tape (roll : Roll) (draws : List Int) : Tape :=
  ⟨draws.map fun z => (roll.dieRequest, z)⟩

/-- The draws show sides of the dice. -/
def OnSides (roll : Roll) (draws : List Int) : Prop :=
  ∀ z ∈ draws, 1 ≤ z ∧ z ≤ roll.sides

theorem draw_tape_cons {z : Int} (hz : 1 ≤ z ∧ z ≤ roll.sides) (draws : List Int) :
    Source.draw roll.dieRequest (roll.tape (z :: draws)) = some (z, roll.tape draws) := by
  have hallows : roll.dieRequest.allows z = true := by
    simp only [dieRequest, Request.allows, Bool.and_eq_true, decide_eq_true_eq]
    omega
  exact if_pos ⟨rfl, hallows⟩

/-- The tape gives the draws it begins with, and goes on behind them. -/
theorem gives_tape_iff {s : Tape} (hdraws : roll.OnSides draws) :
    Source.Gives roll.dieRequest (roll.tape draws) zs s ↔
      ∃ rest, draws = zs ++ rest ∧ s = roll.tape rest := by
  induction draws generalizing zs with
  | nil =>
    constructor
    · intro h
      cases h with
      | nil => exact ⟨[], rfl, rfl⟩
      | cons hdraw => cases hdraw
    · rintro ⟨rest, hnil, rfl⟩
      obtain ⟨rfl, rfl⟩ := List.append_eq_nil_iff.mp hnil.symm
      exact .nil
  | cons z draws ih =>
    obtain ⟨hz, hdraws⟩ := List.forall_mem_cons.mp hdraws
    cases zs with
    | nil =>
      constructor
      · intro h
        cases h
        exact ⟨z :: draws, rfl, rfl⟩
      · rintro ⟨rest, rfl, rfl⟩
        exact .nil
    | cons x zs =>
      rw [Source.gives_cons_iff (draw_tape_cons hz draws), ih hdraws]
      constructor
      · rintro ⟨rfl, rest, rfl, rfl⟩
        exact ⟨rest, rfl, rfl⟩
      · rintro ⟨rest, hcons, rfl⟩
        obtain ⟨rfl, rfl⟩ := List.cons.inj hcons
        exact ⟨rfl, rest, rfl, rfl⟩

/-- From given draws a roll takes the chains they begin with, and leaves the rest. -/
theorem draw_tape_eq_some_iff {o : RollOutcome} {s : Tape} (hsides : 1 ≤ roll.sides)
    (hdraws : roll.OnSides draws) :
    roll.draw (roll.tape draws) = some (o, s) ↔
      ∃ zs rest, draws = zs ++ rest ∧ Chains roll roll.amount zs ∧ s = roll.tape rest ∧
        o = ⟨roll, roll.arrange zs⟩ := by
  rw [draw_eq_some_iff hsides]
  constructor
  · rintro ⟨zs, hchains, hgives, rfl⟩
    obtain ⟨rest, hsplit, rfl⟩ := (gives_tape_iff hdraws).mp hgives
    exact ⟨zs, rest, hsplit, hchains, rfl, rfl⟩
  · rintro ⟨zs, rest, hsplit, hchains, rfl, rfl⟩
    exact ⟨zs, hchains, (gives_tape_iff hdraws).mpr ⟨rest, hsplit, rfl⟩, rfl⟩

/-- The outcome shows these draws: as they fell, without a mark, or sorted for a choice. -/
structure Shows (roll : Roll) (used : List Int) (o : RollOutcome) : Prop where
  roll_eq : o.roll = roll
  plain : roll.choice = none → o.dice = used.map (Die.mk · false)
  sorted : roll.choice ≠ none →
    (o.dice.map Die.value).Perm used ∧ (o.dice.map Die.value).Pairwise (· ≤ ·)

theorem pairwise_sorted (dice : List Int) : (dice.mergeSort (· ≤ ·)).Pairwise (· ≤ ·) := by
  have hpairwise : (dice.mergeSort (· ≤ ·)).Pairwise fun x y => decide (x ≤ y) = true :=
    List.pairwise_mergeSort (fun x y z => by simpa using Int.le_trans)
      (fun x y => by simpa using Int.le_total x y) dice
  simpa using hpairwise

theorem shows_arrange (roll : Roll) (used : List Int) :
    Shows roll used ⟨roll, roll.arrange used⟩ where
  roll_eq := rfl
  plain hnone := arrange_of_choice_none hnone used
  sorted hsome := by
    obtain ⟨choice, hchoice⟩ := Option.ne_none_iff_exists'.mp hsome
    rw [arrange_of_choice hchoice, Choice.map_value_mark]
    exact ⟨List.mergeSort_perm used _, pairwise_sorted used⟩

/-- **A roll takes the shortest beginning of the draws that has a final one for each die.** It
succeeds if there are so many final draws, leaves what is behind them, and shows what it took. A
roll that does not explode takes one draw for each die; the last draw of any roll is final. -/
theorem draw_takes_shortest (roll : Roll) (hamount : 1 ≤ roll.amount) (hsides : 1 ≤ roll.sides)
    (draws : List Int) (hdraws : roll.OnSides draws) :
    ((∃ o s, roll.draw (roll.tape draws) = some (o, s)) ↔ roll.amount ≤ roll.finals draws) ∧
    ∀ o s, roll.draw (roll.tape draws) = some (o, s) →
      ∃ used rest, draws = used ++ rest ∧ s = roll.tape rest ∧
        Shortest roll roll.amount draws used ∧ Shows roll used o ∧
        (roll.exploding = false ∨ roll.sides = 1 → used.length = roll.amount) ∧
        roll.amount ≤ used.length ∧ ∃ z, used.getLast? = some z ∧ roll.Final z := by
  refine ⟨⟨?_, ?_⟩, ?_⟩
  · rintro ⟨o, s, hdraw⟩
    obtain ⟨zs, rest, rfl, hchains, -⟩ := (draw_tape_eq_some_iff hsides hdraws).mp hdraw
    rw [finals, List.countP_append, ← finals, hchains.finals_eq]
    exact Nat.le_add_right _ _
  · intro hfinals
    obtain ⟨zs, rest, hsplit, hchains⟩ := exists_chains hfinals
    exact ⟨_, _, (draw_tape_eq_some_iff hsides hdraws).mpr
      ⟨zs, rest, hsplit, hchains, rfl, rfl⟩⟩
  · intro o s hdraw
    obtain ⟨zs, rest, rfl, hchains, rfl, rfl⟩ := (draw_tape_eq_some_iff hsides hdraws).mp hdraw
    have hlength := hchains.le_length
    refine ⟨zs, rest, rfl, rfl, hchains.shortest, shows_arrange roll zs, ?_, hlength, ?_⟩
    · intro hplain
      exact hchains.length_eq fun z _ => hplain.imp_right .inl
    · have hne : zs ≠ [] := List.ne_nil_of_length_pos (Nat.lt_of_lt_of_le hamount hlength)
      have hlast := List.getLast?_eq_some_getLast hne
      exact ⟨_, hlast, hchains.final_of_mem_getLast? hlast⟩

/-- Two dice take three draws if the first one explodes, and leave the fourth. -/
theorem draw_takes_shortest_exploding :
    let roll : Roll := { amount := 2, exploding := true }
    let draws : List Int := [6, 2, 5, 6]
    1 ≤ roll.amount ∧ 1 ≤ roll.sides ∧ roll.OnSides draws ∧
      ∃ o, roll.draw (roll.tape draws) = some (o, roll.tape [6]) ∧ Shows roll [6, 2, 5] o := by
  intro roll draws
  have hdraws : roll.OnSides draws := by
    unfold OnSides
    decide
  obtain ⟨hsuccess, houtcome⟩ := draw_takes_shortest roll (by decide) (by decide) draws hdraws
  obtain ⟨o, s, hdraw⟩ := hsuccess.mpr (by decide)
  obtain ⟨used, rest, hsplit, rfl, hshortest, hshows, -⟩ := houtcome o s hdraw
  have hle : used.length ≤ 3 := hshortest.least [6, 2, 5] (by decide) (by decide)
  have htake : used = draws.take used.length := List.prefix_iff_eq_take.mp hshortest.initial
  have hfew : ∀ k < 3, roll.finals (draws.take k) ≠ 2 := by decide
  have hlength : used.length = 3 := by
    refine Nat.le_antisymm hle (Nat.le_of_not_lt fun hlt => hfew used.length hlt ?_)
    rw [← htake, hshortest.enough]
  rw [hlength] at htake
  obtain rfl : used = [6, 2, 5] := htake
  have hrest : [6, 2, 5] ++ [6] = [6, 2, 5] ++ rest := hsplit
  obtain rfl := List.append_cancel_left hrest
  exact ⟨by decide, by decide, hdraws, o, hdraw, hshows⟩

end Roll

end Lots
