import Lots.Numeral
import Lots.Text.Blank

/-!
# Lots — options of a statement

The options clause of a statement says how many entries to pick and how. It is the
name of a preset, or an optional amount followed by single-letter flags. Reading it
has two stages: `Notation.ofText?` recognises the clause, and `Notation.value` judges
what is written, one fault at a time in a fixed order.
-/

namespace Lots

/-- How many entries to pick. -/
inductive Amount where
  | all
  | count (n : Nat)
deriving DecidableEq, Repr

/-- How a statement picks its entries, and what it does with them. -/
structure Options where
  amount : Amount := .count 1
  /-- The same entry may be picked again. -/
  repeating : Bool := false
  /-- Picks keep the order of their entries. -/
  keepOrder : Bool := false
  /-- Whether picks are evaluated as expressions; without a word on it, they are if
  the statement has one entry only. -/
  evaluate : Option Bool := none
  /-- Results go back to the pending entries. -/
  push : Bool := false
deriving DecidableEq, Repr

instance : Inhabited Options := ⟨{}⟩

namespace Options

/-- The number of picks asked for, out of a population. -/
def count (options : Options) (population : Nat) : Nat :=
  match options.amount with
  | .all => population
  | .count n => n

/-- Whether the picks of a statement with so many entries are evaluated. -/
def evaluates (options : Options) (entryCount : Nat) : Bool :=
  options.evaluate.getD (entryCount == 1)

/-- All entries in random order, as they are. -/
def shuffle : Options := { amount := .all, evaluate := some false }

/-- All entries in their order, as they are. -/
def list : Options := { amount := .all, evaluate := some false, keepOrder := true }

/-- All entries in their order, each evaluated. -/
def eval : Options := { amount := .all, evaluate := some true, keepOrder := true }

/-- The options that a name stands for. -/
def preset? (text : List Char) : Option Options :=
  if text = "shuffle".toList then some shuffle
  else if text = "list".toList then some list
  else if text = "eval".toList then some eval
  else none

/-! ## Notation -/

inductive Flag where
  | literal
  | evaluate
  | keepOrder
  | push
  | repeating
deriving DecidableEq, Repr

namespace Flag

def toChar : Flag → Char
  | .literal => 'E'
  | .evaluate => 'e'
  | .keepOrder => 'o'
  | .push => 'p'
  | .repeating => 'r'

/-- Every flag, in the order of the letters. -/
def all : List Flag :=
  [.literal, .evaluate, .keepOrder, .push, .repeating]

def ofChar? (c : Char) : Option Flag :=
  all.find? (·.toChar == c)

theorem ofChar?_toChar (flag : Flag) : ofChar? flag.toChar = some flag := by
  cases flag <;> rfl

theorem toChar_of_ofChar? {c : Char} {flag : Flag} (h : ofChar? c = some flag) :
    flag.toChar = c := by
  simpa using List.find?_some h

end Flag

/-- The written amount of an options clause. -/
inductive AmountText where
  | all
  | digits (digits : List Char)
deriving DecidableEq, Repr

/-- What an options clause writes. -/
structure Notation where
  amount : Option AmountText
  flags : List Flag
deriving DecidableEq, Repr

namespace Notation

/-- Spaces that may stand between the tokens of an options clause. -/
def isSpace (c : Char) : Bool :=
  c == ' ' || c == '\t' || c == '\x0c' || c == '\r' || c == '\n'

/-- Reads an amount, if there is one, and gives what follows. Digits have no leading
zero, so a zero is an amount by itself. -/
def takeAmount : List Char → Option AmountText × List Char
  | 'a' :: 'l' :: 'l' :: rest => (some .all, rest)
  | '0' :: rest => (some (.digits ['0']), rest)
  | c :: rest =>
    if c.isDigit then
      (some (.digits (c :: rest.takeWhile Char.isDigit)), rest.dropWhile Char.isDigit)
    else (none, c :: rest)
  | [] => (none, [])

/-- Reads flags up to the end of the text. -/
def flags? : List Char → Option (List Flag)
  | [] => some []
  | c :: rest =>
    if isSpace c then flags? rest
    else do
      let flag ← Flag.ofChar? c
      let more ← flags? rest
      return flag :: more

/-- What an options clause writes, if it is one. -/
def ofText? (text : List Char) : Option Notation :=
  let (amount, rest) := takeAmount (text.dropWhile isSpace)
  (flags? rest).map (⟨amount, ·⟩)

end Notation

/-! ## Value -/

def maxAmount : Nat := 0xFFFFFFFF

/-- Why an options clause is refused. -/
inductive Error where
  /-- The clause is neither a preset nor an amount and flags. -/
  | badSyntax (text : List Char)
  | tooLong (cause : Numeral.TooLong)
  /-- The amount is above `maxAmount`. -/
  | tooLarge (digits : List Char)
  /-- These flags occur more than once. -/
  | duplicate (flags : List Flag)
  /-- Evaluation is both asked for and forbidden. -/
  | incompatible
deriving DecidableEq, Repr

def Error.message : Error → String
  | .badSyntax text => "options: Bad options: " ++ String.ofList text
  | .tooLong cause => cause.message
  | .tooLarge digits => "options: Bad amount: " ++ String.ofList digits ++ " is too large"
  | .duplicate flags => "options: Duplicate flags: " ++ String.ofList (flags.map Flag.toChar)
  | .incompatible => "options: Flags 'e' and 'E' are incompatible"

namespace Notation

/-- The amount meant; one entry if none is written. -/
def amountValue : Option AmountText → Except Error Amount
  | none => .ok (.count 1)
  | some .all => .ok .all
  | some (.digits digits) =>
    match Numeral.read digits with
    | .error cause => .error (.tooLong cause)
    | .ok n => if n ≤ maxAmount then .ok (.count n) else .error (.tooLarge digits)

/-- The flags that occur more than once, in the order of their letters. -/
def duplicates (flags : List Flag) : List Flag :=
  Flag.all.filter fun flag => 1 < flags.count flag

/-- The evaluation that flags ask for. -/
def evaluation (flags : List Flag) : Option Bool :=
  if flags.contains .evaluate then some true
  else if flags.contains .literal then some false
  else none

/-- The options meant by a clause. -/
def value (written : Notation) : Except Error Options := do
  let amount ← amountValue written.amount
  if duplicates written.flags ≠ [] then
    throw (.duplicate (duplicates written.flags))
  if written.flags.contains .evaluate && written.flags.contains .literal then
    throw .incompatible
  return {
    amount
    repeating := written.flags.contains .repeating
    keepOrder := written.flags.contains .keepOrder
    evaluate := evaluation written.flags
    push := written.flags.contains .push }

end Notation

/-- Reads an options clause; an empty one gives the default options. -/
def parse (text : List Char) : Except Error Options :=
  let text := Text.strip text
  match preset? text with
  | some options => .ok options
  | none =>
    if text.isEmpty then .ok {}
    else
      match Notation.ofText? text with
      | some written => written.value
      | none => .error (.badSyntax text)

end Options

end Lots
