import Lots.CommandLine.Arguments
import Lots.CommandLine.Log
import Lots.Source.Twister
import Lots.Text.Lines

/-!
# Lots — the command line

A run reads data from standard input, runs the query, and ends what is still pending.
Each line of standard input is an entry as it stands, or a query line of its own. What a
run prints, logs and returns is a value, `Report`; only the main program talks to the
world.
-/

namespace Lots.CommandLine

/-- What the world around a run provides. -/
structure Environment where
  stdin : List Char := []
  isTerminal : Bool := false
  /-- The seed that an environment variable gives. -/
  seedVariable : Option (List Char) := none
  /-- The seed that is taken if none is given. -/
  entropy : Int := 0
deriving DecidableEq, Repr

/-- What a run hands back to the world. -/
structure Report where
  /-- The exit status; none if the run broke off with an error that is not the query's. -/
  exit : Option Nat := some 0
  stdout : List Char := []
  stderr : List String := []
  log : List String := []
  /-- The error that broke the run off. -/
  raised : Option Error := none
deriving DecidableEq, Repr

/-- Whether standard input is read: always, unless it is a terminal and there is a query. -/
def Arguments.readsInput (args : Arguments) (isTerminal : Bool) : Bool :=
  args.query.isNone || !isTerminal

/-- The seed of a run: that of the arguments, else that of the environment variable,
unless it is empty. -/
def Arguments.seedIn (args : Arguments) (env : Environment) : Except UsageError Int :=
  match args.seed, env.seedVariable.getD [] with
  | some z, _ => .ok z
  | none, [] => .ok env.entropy
  | none, text =>
    match integer? text with
    | some z => .ok z
    | none => .error (.badSeedVariable text)

/-- The lines of standard input that say something, stripped. -/
def dataLines (stdin : List Char) : List (List Char) :=
  ((Text.inputLines stdin).map Text.strip).filter (!·.isEmpty)

section

variable {σ : Type} [Source σ]

/-- Takes lines of standard input in: as query lines, or each as an entry. -/
def feed (evaluated : Bool) : List (List Char) → Session σ → Session.Run σ
  | [], s => .done s
  | line :: rest, s =>
    if evaluated then (s.runLine line).andThen (feed evaluated rest)
    else feed evaluated rest (s.add line)

/-- Runs standard input, the query, and the end of input. -/
def perform (args : Arguments) (env : Environment) (s : Session σ) : Session.Run σ :=
  let lines := if args.readsInput env.isTerminal then dataLines env.stdin else []
  ((feed args.evalStdin lines s).andThen fun s =>
    s.runLine (args.query.getD [])).andThen Session.flush

/-- How a run ends: well, with an error of the query, or broken off. -/
def conclude (report : Report) : Option Error → Report
  | none => report
  | some error =>
    if error.isQuery then
      { report with exit := some 1, stderr := ["error: " ++ error.message] }
    else { report with exit := none, raised := some error }

def reportOf (args : Arguments) (run : Session.Run σ) : Report :=
  conclude
    { stdout := run.outputs.flatMap (Sample.renderAll args.hideExpr)
      log := if args.verbose then log run else [] }
    (run.failure.map (·.error))

end

def refuse (error : UsageError) : Report :=
  { exit := some 2, stderr := ["usage: " ++ error.message] }

def execute (args : Arguments) (env : Environment) : Report :=
  match args.seedIn env with
  | .error error => refuse error
  | .ok seed =>
    let start : Session Twister := { source := .ofSeed seed }
    match start.setSeparators args.separators with
    | .error faults => conclude {} (some (.separators faults))
    | .ok s => reportOf args (perform args env s)

/-- A placeholder for the help page. That it is shown and nothing is run is fixed here, its
wording and layout are not. -/
def helpText : String :=
  "usage: lots [-h] [-E] [-e] [-v] [--seed SEED] [--stmt-sep CHARACTER]\n" ++
  "            [--entry-sep CHARACTER] [--options-sep CHARACTER] [query]\n"

/-- Runs a command line. -/
def run (texts : List (List Char)) (env : Environment) : Report :=
  match Arguments.parse texts with
  | .error .help => { stdout := helpText.toList }
  | .error (.usage error) => refuse error
  | .ok args => execute args env

end Lots.CommandLine
