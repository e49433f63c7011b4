import Lots.Roll.Notation
import Lots.Interval.Notation

/-!
# Lots — expressions

The text of an entry is classified as one of three keywords, as dice notation, as
interval notation, or as plain text. A text that has the form of a notation but not
its values is an error; it never passes for plain text.
-/

namespace Lots

/-- What the text of an entry means. -/
inductive Expr where
  | text (text : List Char)
  | coin
  | color
  | uuid
  | dice (roll : Roll)
  | interval (interval : Interval)
deriving DecidableEq, Repr

namespace Expr

/-- The expression that a keyword stands for. -/
def keyword? (text : List Char) : Option Expr :=
  if text = "coin".toList then some .coin
  else if text = "color".toList then some .color
  else if text = "uuid".toList then some .uuid
  else none

/-- Why a text is refused. -/
inductive Error where
  | roll (cause : Roll.Error)
  | interval (cause : Interval.Error)
deriving DecidableEq, Repr

/-- The refused conversion of a number behind an error, if there is one. -/
def Error.tooLong? : Error → Option Numeral.TooLong
  | .roll (.tooLong cause) => some cause
  | .interval (.tooLong cause) => some cause
  | _ => none

def Error.message : Error → String
  | .roll (.tooLong cause) => cause.message
  | .interval (.tooLong cause) => cause.message
  | .roll cause => "expression: " ++ cause.message
  | .interval cause => "expression: " ++ cause.message

/-- Classifies a text. -/
def parse (text : List Char) : Except Error Expr :=
  match keyword? text, Roll.parse? text, Interval.parse? text with
  | some expr, _, _ => .ok expr
  | none, some (.ok roll), _ => .ok (.dice roll)
  | none, some (.error cause), _ => .error (.roll cause)
  | none, none, some (.ok i) => .ok (.interval i)
  | none, none, some (.error cause) => .error (.interval cause)
  | none, none, none => .ok (.text text)

end Expr

end Lots
