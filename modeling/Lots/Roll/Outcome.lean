import Lots.Roll
import Lots.Source

/-!
# Lots — rolled dice

Rolling draws one die after the other; a die that explodes is followed by one more die.
A choice sorts the dice and marks those that do not count. The outcome keeps all of
them, so that it can be shown with or without its dice.
-/

namespace Lots

structure Die where
  value : Int
  /-- It does not count. -/
  dropped : Bool := false
deriving DecidableEq, Repr

/-- A die as shown among others; a mark follows a dropped one. -/
def Die.text (die : Die) : List Char :=
  Numeral.intText die.value ++ (if die.dropped then ['d'] else [])

namespace Choice

/-- How many of so many sorted dice lie before the place where the choice cuts them. -/
def cut (choice : Choice) (length : Nat) : Nat :=
  match choice.action, choice.side with
  | .keep, .high => length - choice.amount
  | .keep, .low => choice.amount
  | .drop, .high => length - choice.amount
  | .drop, .low => choice.amount

/-- Whether the dice before the cut are the dropped ones. -/
def dropsFront (choice : Choice) : Bool :=
  match choice.action, choice.side with
  | .keep, .high => true
  | .keep, .low => false
  | .drop, .high => false
  | .drop, .low => true

/-- Marks the dice on one side of the cut of sorted dice. -/
def mark (choice : Choice) (sorted : List Int) : List Die :=
  let cut := choice.cut sorted.length
  (sorted.take cut).map (Die.mk · choice.dropsFront) ++
    (sorted.drop cut).map (Die.mk · !choice.dropsFront)

/-- Marking keeps the dice and their order. -/
theorem map_value_mark (choice : Choice) (sorted : List Int) :
    (choice.mark sorted).map Die.value = sorted := by
  simp [mark, Function.comp_def]

end Choice

/-- A roll together with the dice it gave. -/
structure RollOutcome where
  roll : Roll
  dice : List Die
deriving DecidableEq, Repr

namespace RollOutcome

/-- The values of the dice that count. -/
def kept (o : RollOutcome) : List Int :=
  (o.dice.filter (!·.dropped)).map Die.value

/-- The sum of the dice that count, and the modifier. -/
def total (o : RollOutcome) : Int :=
  o.kept.foldr (· + ·) 0 + o.roll.modifier

def value (o : RollOutcome) : List Char :=
  Numeral.intText o.total

/-- Texts with a plus sign between them. -/
def joinPlus (texts : List (List Char)) : List Char :=
  List.intercalate ['+'] texts

/-- Whether the dice say more than the total. -/
def isDetailed (roll : Roll) : Bool :=
  roll.exploding || roll.choice.isSome || roll.modifier != 0

/-- The dice and the modifier in front of the total. -/
def details (o : RollOutcome) : List Char :=
  if isDetailed o.roll then
    '[' :: joinPlus (o.dice.map Die.text) ++ ']' :: Roll.modifierText o.roll.modifier ++
      [' ', '=', ' ']
  else []

/-- The roll, its dice if they say more, and the total. -/
def full (o : RollOutcome) : List Char :=
  o.roll.text ++ ':' :: ' ' :: o.details ++ o.value

end RollOutcome

namespace Roll

variable {σ : Type} [Source σ]

/-- Rolls until so many more dice are final, after the dice rolled before. A die is final
unless it explodes. -/
def rollDice (roll : Roll) (finals : Nat) (dice : Array Int) (s : σ) :
    Option (Array Int × σ) :=
  match finals with
  | 0 => some (dice, s)
  | more + 1 =>
    match _h : Source.draw (.range 1 (roll.sides + 1)) s with
    | none => none
    | some (z, s) =>
      if roll.explodes && z == roll.sides then rollDice roll (more + 1) (dice.push z) s
      else rollDice roll more (dice.push z) s
termination_by Source.size s
decreasing_by all_goals exact Source.size_lt_of_draw _h

/-- The dice as shown: in the order they fell, or sorted and marked by the choice. -/
def arrange (roll : Roll) (dice : List Int) : List Die :=
  match roll.choice with
  | none => dice.map (Die.mk · false)
  | some choice => choice.mark (dice.mergeSort (· ≤ ·))

theorem arrange_of_choice_none {roll : Roll} (h : roll.choice = none) (dice : List Int) :
    roll.arrange dice = dice.map (Die.mk · false) := by
  rw [arrange, h]

theorem arrange_of_choice {roll : Roll} {choice : Choice} (h : roll.choice = some choice)
    (dice : List Int) : roll.arrange dice = choice.mark (dice.mergeSort (· ≤ ·)) := by
  rw [arrange, h]

def draw (roll : Roll) : Draw σ RollOutcome := fun s =>
  (rollDice roll roll.amount #[] s).map fun (dice, s) =>
    (⟨roll, roll.arrange dice.toList⟩, s)

end Roll

end Lots
