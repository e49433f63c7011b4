import Lots.Session
import Lots.Text.Lines

/-!
# Lots — programs

A program is a text whose lines run one after the other. Each line ends its last
statement, so that nothing but the source of draws goes from one line to the next.
-/

namespace Lots.Program

variable {σ : Type} [Source σ]

/-- Runs a line and ends what it leaves open. -/
def runLine (line : List Char) (s : Session σ) : Session.Run σ :=
  (s.runLine line).andThen Session.flush

/-- Runs lines one after the other, up to the first failure. -/
def runLines : List (List Char) → Session σ → Session.Run σ
  | [], s => .done s
  | line :: rest, s => (runLine line s).andThen (runLines rest)

/-- Runs a program. -/
def run (program : List Char) (s : Session σ) : Session.Run σ :=
  runLines (Text.programLines program) s

end Lots.Program
