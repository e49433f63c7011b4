import Lots.Session

/-!
# Lots — operations on a session

What callers do with a session, as data. An operation that fails leaves a session too,
and the next operation goes on with it; so operations in a row always end in a state.
-/

namespace Lots

/-- What may be asked of a session. -/
inductive Operation where
  | add (text : List Char)
  | line (text : List Char)
  /-- To run a line until so many statements have ended, and leave the rest. -/
  | take (limit : Nat) (text : List Char)
  | flush
  | setSeparators (change : Separators.Change)
deriving DecidableEq, Repr

namespace Session

variable {σ : Type}

/-- A session that nothing has been asked of. -/
def fresh (separators : Separators) (source : σ) : Session σ :=
  { separators, source }

variable [Source σ]

/-- Does what is asked. -/
def perform (s : Session σ) : Operation → Run σ
  | .add text => .done (s.add text)
  | .line text => s.runLine text
  | .take limit text => s.runUpTo (some limit) text
  | .flush => s.flush
  | .setSeparators change =>
    match s.setSeparators change with
    | .ok s => .done s
    | .error faults => ⟨[], some { error := .separators faults }, s⟩

/-- Operations in a row: what each of them did. -/
def runs (s : Session σ) : List Operation → List (Run σ)
  | [] => []
  | op :: rest => s.perform op :: (s.perform op).state.runs rest

/-- The session after operations in a row. -/
def after (s : Session σ) (ops : List Operation) : Session σ :=
  ops.foldl (fun s op => (s.perform op).state) s

theorem after_cons (s : Session σ) (op : Operation) (ops : List Operation) :
    s.after (op :: ops) = (s.perform op).state.after ops := rfl

end Session

end Lots
