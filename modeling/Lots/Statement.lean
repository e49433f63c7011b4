import Lots.Error
import Lots.Sample
import Lots.Selection

/-!
# Lots — statements

A statement is a row of entries with options. Running it draws: first its picks, then a
sample for each pick, from left to right. Entries that are not picked are never looked
at, and draws made before an error stay made.

An entry is classified once, however often it is picked (`classify_of_lookup`).
-/

namespace Lots

/-- An entry of a statement. -/
structure Entry where
  /-- Its place in the order in which entries came. -/
  id : Nat
  text : List Char
deriving DecidableEq, Repr

/-- Entries in the order in which they came, and what to do with them. -/
structure Statement where
  entries : Array Entry
  options : Options
deriving DecidableEq, Repr

/-- A statement that was run, with the samples of its picks. -/
structure Ended where
  statement : Statement
  samples : List Sample
deriving DecidableEq, Repr

/-- What an ended statement gives out; nothing if its samples become entries again. -/
def Ended.output (ended : Ended) : List Sample :=
  if ended.statement.options.push then [] else ended.samples

/-! ## Picks -/

/-- Classified entries of a statement, by id. -/
abbrev Classified : Type := List (Nat × Expr)

/-- The expression of an entry: its text where nothing is evaluated, else what it was
classified as before, or is now. -/
def classify (evaluates : Bool) (known : Classified) (entry : Entry) :
    Except Expr.Error (Expr × Classified) :=
  if evaluates then
    match known.lookup entry.id with
    | some expr => .ok (expr, known)
    | none => (Expr.parse entry.text).map fun expr => (expr, (entry.id, expr) :: known)
  else .ok (.text entry.text, known)

/-- An entry that is known keeps its expression. -/
theorem classify_of_lookup {known : Classified} {entry : Entry} {expr : Expr}
    (h : known.lookup entry.id = some expr) :
    classify true known entry = .ok (expr, known) := by
  simp [classify, h]

variable {σ : Type} [Source σ]

/-- Evaluates picks from left to right, after the samples made before. Each pick has draws
of its own, also where an entry is picked again. -/
def evaluatePicks (evaluates : Bool) (known : Classified) (samples : Array Sample) :
    List Entry → σ → Except Error (List Sample) × σ
  | [], s => (.ok samples.toList, s)
  | entry :: rest, s =>
    match classify evaluates known entry with
    | .error cause => (.error (.expression cause), s)
    | .ok (expr, known) =>
      match expr.evaluate s with
      | none => (.error .exhausted, s)
      | some (sample, s) => evaluatePicks evaluates known (samples.push sample) rest s

namespace Statement

def population (statement : Statement) : Nat :=
  statement.entries.size

/-- Whether its picks are evaluated as expressions. -/
def evaluates (statement : Statement) : Bool :=
  statement.options.evaluates statement.population

def pickCount (statement : Statement) : Nat :=
  Selection.pickCount statement.options statement.population

def picks (statement : Statement) : Draw σ (List Entry) :=
  Selection.select Entry.id statement.options statement.entries

/-- Runs a statement: its samples or an error, and the source afterwards. -/
def run (statement : Statement) (s : σ) : Except Error (List Sample) × σ :=
  match statement.picks s with
  | none => (.error .exhausted, s)
  | some (picks, s) => evaluatePicks statement.evaluates [] #[] picks s

end Statement

end Lots
