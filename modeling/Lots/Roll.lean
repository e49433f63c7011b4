import Lots.Numeral

/-!
# Lots — dice rolls

A `Roll` describes dice to be rolled: how many, with how many sides, whether a die
that shows its maximum is rolled again, which dice count, and what is added to their
sum. `Roll.text` is its canonical notation.
-/

namespace Lots

/-- What happens to the selected dice. -/
inductive Action where
  | keep
  | drop
deriving DecidableEq, Repr

/-- The end of the sorted dice that a selection starts from. -/
inductive Side where
  | high
  | low
deriving DecidableEq, Repr

/-- A choice among rolled dice: the `amount` highest or lowest are kept or dropped. -/
structure Choice where
  amount : Nat
  action : Action
  side : Side
deriving DecidableEq, Repr

/-- The letters that stand for a choice: keeping is from the high side and dropping
from the low side, unless the other side is named. -/
def Choice.symbol : Choice → List Char
  | ⟨_, .keep, .high⟩ => ['k']
  | ⟨_, .keep, .low⟩ => ['k', 'l']
  | ⟨_, .drop, .high⟩ => ['d', 'h']
  | ⟨_, .drop, .low⟩ => ['d']

/-- A description of a dice roll. -/
structure Roll where
  amount : Nat := 1
  sides : Nat := 6
  /-- Written with the mark that lets a die explode. -/
  exploding : Bool := false
  choice : Option Choice := none
  /-- Added to the sum of the dice. -/
  modifier : Int := 0
deriving DecidableEq, Repr

namespace Roll

/-- The largest number of dice, of sides, or of chosen dice. -/
def maxCount : Nat := 0xFFFF

def minModifier : Int := -0x80000000

def maxModifier : Int := 0x7FFFFFFF

/-- Whether a die on its maximum is rolled again. A one-sided die never is: it always
shows its maximum and would be rolled forever. -/
def explodes (roll : Roll) : Bool :=
  roll.exploding && 1 < roll.sides

/-- A modifier with its sign; nothing for zero. -/
def modifierText (modifier : Int) : List Char :=
  if modifier = 0 then [] else Numeral.signedText modifier

/-- A number of dice; nothing for one. -/
def countText (n : Nat) : List Char :=
  if 1 < n then Numeral.text n else []

def choiceText : Option Choice → List Char
  | none => []
  | some choice => choice.symbol ++ countText choice.amount

/-- The canonical notation of a roll. -/
def text (roll : Roll) : List Char :=
  countText roll.amount ++ 'd' :: Numeral.text roll.sides ++
    (if roll.exploding then ['!'] else []) ++ choiceText roll.choice ++
    modifierText roll.modifier

end Roll

end Lots
