import Lots.Expr
import Lots.Line
import Lots.Options

/-!
# Lots — errors of a query

All that can go wrong while a query line runs. Most of it is wrong with the query; such
an error makes a session forget its pending entries. A number with too many digits,
a line feed inside a line and a source without draws are not.
-/

namespace Lots

/-- Why a query does not run on. -/
inductive Error where
  /-- The line has no further parts. -/
  | line (fault : Line.Fault)
  | options (cause : Options.Error)
  /-- The text of a picked entry is refused. -/
  | expression (cause : Expr.Error)
  /-- Texts do not make separators. -/
  | separators (faults : List Separators.Fault)
  | exhausted
deriving DecidableEq, Repr

namespace Error

/-- Whether it is the query that is wrong. -/
def isQuery : Error → Bool
  | .line .newline => false
  | .line _ => true
  | .options (.tooLong _) => false
  | .options _ => true
  | .expression cause => cause.tooLong?.isNone
  | .separators _ => true
  | .exhausted => false

/-- What a user is told. Of separators each fault is named. -/
def message : Error → String
  | .line fault => fault.message
  | .options cause => cause.message
  | .expression cause => cause.message
  | .separators faults => "config: " ++ "; ".intercalate (faults.map Separators.Fault.message)
  | .exhausted => "no draws left"

end Error

end Lots
