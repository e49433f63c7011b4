import Lots.Session

/-!
# Lots — the log of a run

A verbose run tells what it did, statement by statement. Every line of the log follows
from the statements that ended and from the failure, if there is one.
-/

namespace Lots.CommandLine

def logNumber (n : Nat) : String :=
  String.ofList (Numeral.text n)

def logBool (b : Bool) : String :=
  if b then "True" else "False"

def logOptions (options : Options) : String :=
  let amount := match options.amount with
    | .all => "'all'"
    | .count n => logNumber n
  let evaluate := match options.evaluate with
    | none => "None"
    | some b => logBool b
  "amount=" ++ amount ++ " repeating=" ++ logBool options.repeating ++
    " keep_order=" ++ logBool options.keepOrder ++ " eval_expr=" ++ evaluate ++
    " push=" ++ logBool options.push

/-- What the log says of a statement and its picks. -/
def logStatement (statement : Statement) : List String :=
  ["Statement with " ++ logNumber statement.population ++ " entries, options=" ++
      logOptions statement.options ++ ", eval_expr=" ++ logBool statement.evaluates,
    "Selected " ++ logNumber statement.pickCount ++ " of " ++ logNumber statement.population ++
      " entries"]

/-- What the log says of a statement that ended. -/
def logEnded (ended : Ended) : List String :=
  logStatement ended.statement ++
    (if ended.statement.options.push then
      ["Pushing " ++ logNumber ended.samples.length ++ " samples back as entries"]
    else [])

def logFailure (failure : Session.Failure) : List String :=
  ((failure.statement.map logStatement).getD []) ++
    (if 0 < failure.discarded.size then
      ["Discarding " ++ logNumber failure.discarded.size ++ " pending entries after error: " ++
        failure.error.message]
    else [])

def log {σ : Type} (run : Session.Run σ) : List String :=
  run.ended.flatMap logEnded ++ ((run.failure.map logFailure).getD [])

end Lots.CommandLine
