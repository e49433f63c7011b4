import Lots.Statement

/-!
# Lots — sessions

A session holds the entries that wait for the end of their statement, and the source of
its draws. `Session.endStatement` runs the statement of the pending entries and gives its
samples out, or makes them pending again. `Session.runLine` runs the parts of a line;
entries that the line leaves open stay pending.

An error in a query takes the pending entries with it, so that the next statement never
inherits leftovers.
-/

namespace Lots

/-- The state of a session. -/
structure Session (σ : Type) where
  separators : Separators := default
  /-- Entries of the statement that is open, oldest first. -/
  pending : Array Entry := #[]
  /-- The id of the next entry. -/
  nextId : Nat := 0
  source : σ

namespace Session

/-- Where and how a session failed. -/
structure Failure where
  error : Error
  statement : Option Statement := none
  /-- The pending entries that were forgotten. -/
  discarded : Array Entry := #[]
deriving DecidableEq, Repr

/-- What a session did in a row. -/
structure Run (σ : Type) where
  /-- The statements that ended, in order. -/
  ended : List Ended
  /-- What stopped it, if it was stopped. -/
  failure : Option Failure
  state : Session σ

namespace Run

variable {σ : Type}

def done (s : Session σ) : Run σ :=
  ⟨[], none, s⟩

/-- What the ended statements gave out. -/
def outputs (run : Run σ) : List (List Sample) :=
  run.ended.map Ended.output

/-- Goes on with the session that a run leaves, unless it failed. -/
def andThen (run : Run σ) (next : Session σ → Run σ) : Run σ :=
  match run.failure with
  | some _ => run
  | none =>
    let more := next run.state
    { more with ended := run.ended ++ more.ended }

theorem done_andThen (s : Session σ) (next : Session σ → Run σ) :
    (done s).andThen next = next s := rfl

theorem andThen_done (run : Run σ) : run.andThen done = run := by
  obtain ⟨ended, failure, state⟩ := run
  cases failure with
  | none => simp [andThen, done]
  | some _ => rfl

/-- A run that failed is not gone on with. -/
theorem andThen_of_failure {run : Run σ} {failure : Failure} (h : run.failure = some failure)
    (next : Session σ → Run σ) : run.andThen next = run := by
  simp [andThen, h]

/-- A run that did not fail is gone on with, behind what it ended. -/
theorem andThen_of_ok {run : Run σ} (h : run.failure = none) (next : Session σ → Run σ) :
    run.andThen next =
      { next run.state with ended := run.ended ++ (next run.state).ended } := by
  simp [andThen, h]

theorem andThen_assoc (run : Run σ) (f g : Session σ → Run σ) :
    (run.andThen f).andThen g = run.andThen fun s => (f s).andThen g := by
  obtain ⟨ended, failure, state⟩ := run
  cases failure with
  | some _ => rfl
  | none =>
    cases hf : (f state).failure with
    | some _ => simp [andThen, hf]
    | none => simp [andThen, hf, List.append_assoc]

end Run

variable {σ : Type}

/-! ## Entries and statements -/

/-- Adds an entry, stripped. A blank text is no entry. -/
def add (s : Session σ) (text : List Char) : Session σ :=
  let text := Text.strip text
  if text.isEmpty then s
  else { s with pending := s.pending.push ⟨s.nextId, text⟩, nextId := s.nextId + 1 }

theorem add_of_blank (s : Session σ) {text : List Char} (h : Text.strip text = []) :
    s.add text = s := by
  simp [add, h]

/-- A text that is not blank becomes the youngest entry. -/
theorem add_of_not_blank (s : Session σ) {text : List Char} (h : Text.strip text ≠ []) :
    s.add text =
      { s with pending := s.pending.push ⟨s.nextId, Text.strip text⟩, nextId := s.nextId + 1 } := by
  simp [add, h]

/-- Adds the values of samples as entries. -/
def addValues (s : Session σ) (samples : List Sample) : Session σ :=
  samples.foldl (fun s sample => s.add sample.value) s

/-- Replaces some of the separators. A change that is refused changes nothing. -/
def setSeparators (s : Session σ) (change : Separators.Change) :
    Except (List Separators.Fault) (Session σ) :=
  (s.separators.replace change).map fun separators => { s with separators }

def statement (s : Session σ) (options : Options) : Statement :=
  ⟨s.pending, options⟩

variable [Source σ]

/-- Runs the statement of the pending entries. They are gone in any case. -/
def endStatement (options : Options) (s : Session σ) : Run σ :=
  let statement := s.statement options
  match statement.run s.source with
  | (.error error, source) =>
    ⟨[], some { error, statement := some statement }, { s with pending := #[], source }⟩
  | (.ok samples, source) =>
    let after := { s with pending := #[], source }
    ⟨[⟨statement, samples⟩], none, if options.push then after.addValues samples else after⟩

theorem endStatement_of_error {s : Session σ} {options : Options} {error : Error} {source : σ}
    (h : (s.statement options).run s.source = (.error error, source)) :
    s.endStatement options =
      ⟨[], some { error, statement := some (s.statement options) },
        { s with pending := #[], source }⟩ := by
  simp only [endStatement, h]

theorem endStatement_of_ok {s : Session σ} {options : Options} {samples : List Sample}
    {source : σ} (h : (s.statement options).run s.source = (.ok samples, source)) :
    s.endStatement options =
      ⟨[⟨s.statement options, samples⟩], none,
        if options.push then { s with pending := #[], source }.addValues samples
        else { s with pending := #[], source }⟩ := by
  simp only [endStatement, h]

/-- Ends the statement that is open, if there is one, with default options. -/
def flush (s : Session σ) : Run σ :=
  if s.pending.isEmpty then .done s else s.endStatement {}

/-! ## Lines -/

/-- Stops at an error outside any statement. An error in the query takes the pending
entries with it. -/
def fail (s : Session σ) (error : Error) : Run σ :=
  if error.isQuery then
    ⟨[], some { error, discarded := s.pending }, { s with pending := #[] }⟩
  else ⟨[], some { error }, s⟩

/-- Runs the parts of a line until so many statements have ended, or all of them. Given
are the fault behind the last part and the options of the statement that is open, if it
has any yet. A second options clause for it is no case of its own: behind a clause a line
has the end of the statement or no part at all (`Line.isChain_split`). -/
def runParts (fault : Option Line.Fault) (limit : Option Nat) (options : Option Options)
    (parts : List Line.Part) (s : Session σ) : Run σ :=
  if limit = some 0 then .done s
  else
    match parts with
    | .entry text :: rest => runParts fault limit options rest (s.add text)
    | .options text :: rest =>
      match Options.parse text with
      | .error cause => s.fail (.options cause)
      | .ok options => runParts fault limit (some options) rest s
    | .endStmt :: rest =>
      (s.endStatement (options.getD {})).andThen fun s =>
        runParts fault (limit.map (· - 1)) none rest s
    | [] =>
      match fault, options with
      | some fault, _ => s.fail (.line fault)
      | none, some options => s.endStatement options
      | none, none => .done s

section

variable {fault : Option Line.Fault} {limit : Option Nat} {options : Option Options}
  {rest : List Line.Part} {s : Session σ}

theorem runParts_limit_zero {parts : List Line.Part} :
    runParts fault (some 0) options parts s = .done s := by
  rw [runParts.eq_def, if_pos rfl]

theorem runParts_nil (h : limit ≠ some 0) :
    runParts fault limit options [] s =
      match fault, options with
      | some fault, _ => s.fail (.line fault)
      | none, some options => s.endStatement options
      | none, none => .done s := by
  rw [runParts.eq_def, if_neg h]

theorem runParts_entry (h : limit ≠ some 0) (text : List Char) :
    runParts fault limit options (.entry text :: rest) s =
      runParts fault limit options rest (s.add text) := by
  rw [runParts.eq_def, if_neg h]

theorem runParts_options_of_error (h : limit ≠ some 0) {text : List Char}
    {cause : Options.Error} (hparse : Options.parse text = .error cause) :
    runParts fault limit options (.options text :: rest) s = s.fail (.options cause) := by
  rw [runParts.eq_def, if_neg h]
  simp only [hparse]

theorem runParts_options_of_ok (h : limit ≠ some 0) {text : List Char} {parsed : Options}
    (hparse : Options.parse text = .ok parsed) :
    runParts fault limit options (.options text :: rest) s =
      runParts fault limit (some parsed) rest s := by
  rw [runParts.eq_def, if_neg h]
  simp only [hparse]

theorem runParts_endStmt (h : limit ≠ some 0) :
    runParts fault limit options (.endStmt :: rest) s =
      (s.endStatement (options.getD {})).andThen
        (runParts fault (limit.map (· - 1)) none rest) := by
  rw [runParts.eq_def, if_neg h]

end

/-- Runs a line until so many statements have ended, or to its end. -/
def runUpTo (limit : Option Nat) (line : List Char) (s : Session σ) : Run σ :=
  let split := Line.split s.separators line
  runParts split.fault limit none split.parts s

/-- Runs a line. Entries after its last statement stay pending, unless it gives options
for them. -/
def runLine (line : List Char) (s : Session σ) : Run σ :=
  s.runUpTo none line

end Session

end Lots
