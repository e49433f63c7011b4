import Lots.Proofs.Text.Runs
import Lots.Roll.Outcome
import Mathlib.Algebra.Ring.Int.Defs

/-!
# Lots — shown rolls

Where the dice of a roll say more than the total, they are shown: in brackets, joined by plus
signs, with a mark behind those that do not count, and followed by the modifier and the total.
Nothing is escaped. The text is read back all the same, because no die is shown with a bracket or
a plus sign in it, and the brackets stand behind a notation that has none.

* **`Shown`** — what such a text says, and `Shown.ofText?` reads it out of the text alone.
* **`Shown.dice?_joinPlus`** — the dice are read out of their joined texts.
* **`Shown.ofText?_full`** — a shown roll is read back with all of its dice.
* **`full_faithful`** — so the text tells the dice, and the sum of those that count and the
  modifier is the total; and other rolls are shown by their total only.
-/

namespace Lots

open Text (Digits)

/-- What the text of a roll with its dice says. -/
structure Shown where
  dice : List Die
  modifier : Int
  /-- The number behind the equals sign. -/
  total : Int
deriving DecidableEq, Repr

namespace Shown

/-! ## Reading -/

def digits? (s : List Char) : Option Nat :=
  if !s.isEmpty && s.all Char.isDigit then some (Numeral.value s) else none

/-- Reads an integer: digits with a sign in front of them, or without. -/
def integer? : List Char → Option Int
  | '-' :: rest => (digits? rest).map Numeral.Sign.minus.apply
  | '+' :: rest => (digits? rest).map Numeral.Sign.plus.apply
  | s => (digits? s).map Numeral.Sign.plus.apply

/-- Reads a modifier; nothing is zero. -/
def modifier? (s : List Char) : Option Int :=
  if s.isEmpty then some 0 else integer? s

/-- Reads a die: digits, and the mark of a dropped one. -/
def die? (s : List Char) : Option Die :=
  match s.dropWhile Char.isDigit with
  | [] => (digits? s).map fun (n : Nat) => ⟨n, false⟩
  | ['d'] => (digits? (s.takeWhile Char.isDigit)).map fun (n : Nat) => ⟨n, true⟩
  | _ => none

/-- Reads dice that are joined by plus signs. -/
def dice? (s : List Char) : Option (List Die) :=
  (s.splitOn '+').mapM die?

/-- Reads what stands in the first brackets, up to the first blank, and behind the equals sign. -/
def ofText? (text : List Char) : Option Shown := do
  let listed := (text.dropWhile (· != '[')).drop 1
  let dice ← dice? (listed.takeWhile (· != ']'))
  let rest := (listed.dropWhile (· != ']')).drop 1
  let modifier ← modifier? (rest.takeWhile (· != ' '))
  match rest.dropWhile (· != ' ') with
  | ' ' :: '=' :: ' ' :: total => return { dice, modifier, total := ← integer? total }
  | _ => none

/-- The sum of the dice that count. -/
def sum (shown : Shown) : Int :=
  ((shown.dice.filter (!·.dropped)).map Die.value).sum

/-! ## Numbers -/

theorem digits?_text (n : Nat) : digits? (Numeral.text n) = some n := by
  have hdigits : (Numeral.text n).all Char.isDigit = true :=
    List.all_eq_true.mpr (Numeral.digits_text n)
  have hne : (Numeral.text n).isEmpty = false := by
    simp [Numeral.text, Nat.toDigits_ne_nil]
  simp [digits?, hdigits, hne, Numeral.value_text]

theorem integer?_text (n : Nat) : integer? (Numeral.text n) = some (n : Int) := by
  obtain ⟨c, rest, htext⟩ := List.exists_cons_of_ne_nil (@Nat.toDigits_ne_nil n 10)
  have hc : c.isDigit = true := Numeral.digits_text n c (by simp [Numeral.text, htext])
  have hminus : c ≠ '-' := by
    rintro rfl
    exact absurd hc (by decide)
  have hplus : c ≠ '+' := by
    rintro rfl
    exact absurd hc (by decide)
  have hdigits := digits?_text n
  rw [Numeral.text, htext] at hdigits ⊢
  simp [integer?, hminus, hplus, hdigits, Numeral.Sign.apply]

theorem integer?_intText (z : Int) : integer? (Numeral.intText z) = some z := by
  unfold Numeral.intText
  split
  · simp only [integer?, digits?_text, Option.map_some, Numeral.Sign.apply]
    congr 1
    omega
  · rw [integer?_text]
    congr 1
    omega

theorem integer?_signedText (z : Int) : integer? (Numeral.signedText z) = some z := by
  unfold Numeral.signedText
  split
  all_goals
    simp only [integer?, digits?_text, Option.map_some, Numeral.Sign.apply]
    congr 1
    omega

theorem modifier?_modifierText (modifier : Int) :
    modifier? (Roll.modifierText modifier) = some modifier := by
  unfold Roll.modifierText
  split
  · next hzero =>
    rw [hzero]
    rfl
  · rw [← integer?_signedText modifier]
    rfl

/-! ## Dice -/

theorem text_of_pos {die : Die} (h : 0 < die.value) :
    die.text = Numeral.text die.value.natAbs ++ (if die.dropped then ['d'] else []) := by
  rw [Die.text, Numeral.intText, if_neg (by omega)]

theorem die?_text {die : Die} (h : 0 < die.value) : die? die.text = some die := by
  obtain ⟨value, dropped⟩ := die
  have hdigits := Numeral.digits_text value.natAbs
  have hvalue : ((value.natAbs : Nat) : Int) = value := by
    dsimp only at h
    omega
  have hmark : Text.Bounded Char.isDigit (if dropped then ['d'] else []) := by
    cases dropped
    · exact Text.bounded_nil
    · exact Text.bounded_cons (by decide)
  rw [text_of_pos h, die?, Text.dropWhile_run hdigits hmark, Text.takeWhile_run hdigits hmark]
  cases dropped
  · simp [digits?_text, hvalue]
  · simp [digits?_text, hvalue]

/-- Dice are shown without plus signs and brackets. -/
theorem not_mem_text {die : Die} (h : 0 < die.value) {c : Char} (hc : c.isDigit = false)
    (hd : c ≠ 'd') : c ∉ die.text := by
  rw [text_of_pos h, List.mem_append, not_or]
  constructor
  · exact (Numeral.digits_text _).not_mem hc
  · split <;> simp [hd]

theorem mapM_die? {dice : List Die} (h : ∀ die ∈ dice, 0 < die.value) :
    (dice.map Die.text).mapM die? = some dice := by
  induction dice with
  | nil => rfl
  | cons die dice ih =>
    obtain ⟨hdie, hdice⟩ := List.forall_mem_cons.mp h
    rw [List.map_cons, List.mapM_cons, die?_text hdie, ih hdice]
    rfl

theorem dice?_joinPlus {dice : List Die} (hne : dice ≠ []) (h : ∀ die ∈ dice, 0 < die.value) :
    dice? (RollOutcome.joinPlus (dice.map Die.text)) = some dice := by
  have hplus : ∀ text ∈ dice.map Die.text, '+' ∉ text := by
    intro text htext
    obtain ⟨die, hdie, rfl⟩ := List.mem_map.mp htext
    exact not_mem_text (h die hdie) (by decide) (by decide)
  have hmap : dice.map Die.text ≠ [] := by simpa using hne
  rw [dice?, RollOutcome.joinPlus, List.splitOn_intercalate '+' hplus hmap, mapM_die? h]

/-! ## Rolls -/

/-- Dice that may be shown. -/
structure Listed (dice : List Die) : Prop where
  nonempty : dice ≠ []
  positive : ∀ die ∈ dice, 0 < die.value

theorem not_mem_modifierText (modifier : Int) {c : Char} (hc : c.isDigit = false)
    (hminus : c ≠ '-') (hplus : c ≠ '+') : c ∉ Roll.modifierText modifier := by
  have hdigits : c ∉ Numeral.text modifier.natAbs := (Numeral.digits_text _).not_mem hc
  unfold Roll.modifierText Numeral.signedText
  split
  · exact List.not_mem_nil
  · split <;> simp [hdigits, hminus, hplus]

theorem not_mem_countText (n : Nat) {c : Char} (hc : c.isDigit = false) :
    c ∉ Roll.countText n := by
  unfold Roll.countText
  split
  · exact (Numeral.digits_text n).not_mem hc
  · exact List.not_mem_nil

theorem bracket_not_mem_choiceText (choice : Option Choice) : '[' ∉ Roll.choiceText choice := by
  rcases choice with _ | ⟨amount, action, side⟩
  · exact List.not_mem_nil
  · have hamount : '[' ∉ Roll.countText amount := not_mem_countText amount rfl
    cases action <;> cases side <;> simp [Roll.choiceText, Choice.symbol, hamount]

/-- No bracket stands in the notation of a roll. -/
theorem bracket_not_mem_text (roll : Roll) : '[' ∉ roll.text := by
  have hamount : '[' ∉ Roll.countText roll.amount := not_mem_countText roll.amount rfl
  have hsides : '[' ∉ Numeral.text roll.sides := (Numeral.digits_text _).not_mem rfl
  have hmark : '[' ∉ (if roll.exploding then ['!'] else []) := by split <;> simp
  have hmodifier : '[' ∉ Roll.modifierText roll.modifier :=
    not_mem_modifierText roll.modifier rfl (by decide) (by decide)
  simp [Roll.text, bracket_not_mem_choiceText, hamount, hsides, hmark, hmodifier]

theorem bracket_not_mem_joinPlus {dice : List Die} (h : ∀ die ∈ dice, 0 < die.value) :
    ']' ∉ RollOutcome.joinPlus (dice.map Die.text) := by
  induction dice with
  | nil => exact List.not_mem_nil
  | cons die dice ih =>
    obtain ⟨hdie, hdice⟩ := List.forall_mem_cons.mp h
    have hfirst := not_mem_text hdie (by decide : ']'.isDigit = false) (by decide)
    cases dice with
    | nil => simpa [RollOutcome.joinPlus] using hfirst
    | cons next rest =>
      have hrest := ih hdice
      rw [List.map_cons, RollOutcome.joinPlus] at hrest ⊢
      rw [List.map_cons, List.intercalate_cons_cons]
      simp [hfirst, hrest]

/-- Up to a character and from it on. -/
theorem split_at {s rest : List Char} {c : Char} (h : c ∉ s) :
    (s ++ c :: rest).takeWhile (· != c) = s ∧
      (s ++ c :: rest).dropWhile (· != c) = c :: rest := by
  have hs : ∀ d ∈ s, (d != c) = true := by
    intro d hd
    rw [bne_iff_ne]
    rintro rfl
    exact h hd
  have hrest : Text.Bounded (· != c) (c :: rest) := Text.bounded_cons (by simp)
  exact ⟨Text.takeWhile_run hs hrest, Text.dropWhile_run hs hrest⟩

theorem isDetailed_iff {roll : Roll} :
    RollOutcome.isDetailed roll = true ↔
      roll.exploding = true ∨ roll.choice ≠ none ∨ roll.modifier ≠ 0 := by
  simp [RollOutcome.isDetailed, or_assoc, Option.isSome_iff_ne_none]

/-- **A roll that is shown with its dice is read back.** -/
theorem ofText?_full {roll : Roll} {dice : List Die} (hroll : RollOutcome.isDetailed roll = true)
    (h : Listed dice) :
    ofText? (RollOutcome.full ⟨roll, dice⟩) =
      some ⟨dice, roll.modifier, RollOutcome.total ⟨roll, dice⟩⟩ := by
  have hfull : RollOutcome.full ⟨roll, dice⟩ =
      (roll.text ++ [':', ' ']) ++ '[' :: (RollOutcome.joinPlus (dice.map Die.text) ++
        ']' :: (Roll.modifierText roll.modifier ++
          ' ' :: '=' :: ' ' :: RollOutcome.value ⟨roll, dice⟩)) := by
    simp [RollOutcome.full, RollOutcome.details, hroll]
  have hnotation : '[' ∉ roll.text ++ [':', ' '] := by
    simp [bracket_not_mem_text]
  obtain ⟨-, hlisted⟩ := @split_at _ (RollOutcome.joinPlus (dice.map Die.text) ++
    ']' :: (Roll.modifierText roll.modifier ++
      ' ' :: '=' :: ' ' :: RollOutcome.value ⟨roll, dice⟩)) _ hnotation
  obtain ⟨hdice, hrest⟩ := @split_at _ (Roll.modifierText roll.modifier ++
    ' ' :: '=' :: ' ' :: RollOutcome.value ⟨roll, dice⟩) _ (bracket_not_mem_joinPlus h.positive)
  obtain ⟨hmodifier, htotal⟩ := @split_at _ ('=' :: ' ' :: RollOutcome.value ⟨roll, dice⟩) _
    (not_mem_modifierText roll.modifier (by decide : ' '.isDigit = false) (by decide) (by decide))
  rw [hfull, ofText?]
  simp only [hlisted, List.drop_one, List.tail_cons, hdice, hrest, hmodifier, htotal,
    dice?_joinPlus h.nonempty h.positive, modifier?_modifierText]
  rw [RollOutcome.value, integer?_intText]
  rfl

end Shown

/-- **The text of a roll is faithful.** If the roll explodes, chooses or adds something, its text
tells the dice with their marks; and read back, the sum of the dice that count and the modifier is
the number behind the equals sign, which is the value. Otherwise the text is the notation and the
value. -/
theorem full_faithful (roll : Roll) :
    (roll.exploding = true ∨ roll.choice ≠ none ∨ roll.modifier ≠ 0 →
      (∀ dice dice', Shown.Listed dice → Shown.Listed dice' →
        RollOutcome.full ⟨roll, dice⟩ = RollOutcome.full ⟨roll, dice'⟩ → dice = dice') ∧
      ∀ dice, Shown.Listed dice → ∃ shown,
        Shown.ofText? (RollOutcome.full ⟨roll, dice⟩) = some shown ∧ shown.dice = dice ∧
        shown.modifier = roll.modifier ∧ shown.sum + shown.modifier = shown.total ∧
        Numeral.intText shown.total = RollOutcome.value ⟨roll, dice⟩) ∧
    (¬ (roll.exploding = true ∨ roll.choice ≠ none ∨ roll.modifier ≠ 0) →
      ∀ dice, RollOutcome.full ⟨roll, dice⟩ =
        roll.text ++ [':', ' '] ++ RollOutcome.value ⟨roll, dice⟩) := by
  simp only [← Shown.isDetailed_iff]
  refine ⟨fun hroll => ⟨?_, ?_⟩, ?_⟩
  · intro dice dice' hdice hdice' hfull
    have hshown := Shown.ofText?_full hroll hdice
    rw [hfull, Shown.ofText?_full hroll hdice'] at hshown
    exact (congrArg Shown.dice (Option.some.inj hshown)).symm
  · intro dice hdice
    exact ⟨_, Shown.ofText?_full hroll hdice, rfl, rfl, rfl, rfl⟩
  · intro hroll dice
    simp [RollOutcome.full, RollOutcome.details, hroll]

/-- Three of four dice and a negative modifier; and two dice that are only added. -/
theorem full_faithful_keep_three :
    let roll : Roll := ⟨4, 6, false, some ⟨3, .keep, .high⟩, -2⟩
    let dice : List Die := [⟨1, true⟩, ⟨3, false⟩, ⟨4, false⟩, ⟨6, false⟩]
    RollOutcome.full ⟨roll, dice⟩ = "4d6k3-2: [1d+3+4+6]-2 = 11".toList ∧
      (∀ dice', Shown.Listed dice' →
        RollOutcome.full ⟨roll, dice'⟩ = RollOutcome.full ⟨roll, dice⟩ → dice' = dice) ∧
      (∃ shown, Shown.ofText? (RollOutcome.full ⟨roll, dice⟩) = some shown ∧
        shown.dice = dice ∧ shown.sum + shown.modifier = 11) ∧
      RollOutcome.full ⟨⟨2, 6, false, none, 0⟩, [⟨3, false⟩, ⟨4, false⟩]⟩ = "2d6: 7".toList := by
  intro roll dice
  have hdice : Shown.Listed dice := ⟨by decide, by decide⟩
  obtain ⟨hdetailed, -⟩ := full_faithful roll
  obtain ⟨hinjective, hread⟩ := hdetailed (by decide)
  obtain ⟨shown, hshown, hlisted, -, hsum, hvalue⟩ := hread dice hdice
  refine ⟨by decide, fun dice' h hfull => hinjective dice' dice h hdice hfull, ?_, ?_⟩
  · refine ⟨shown, hshown, hlisted, ?_⟩
    have htotal : Shown.integer? (Numeral.intText shown.total) = some 11 := by
      rw [hvalue]
      decide
    rw [Shown.integer?_intText] at htotal
    rw [hsum]
    exact Option.some.inj htotal
  · obtain ⟨-, hplain⟩ := full_faithful ⟨2, 6, false, none, 0⟩
    rw [hplain (by decide)]
    decide

end Lots
