import Lots.Proofs.Selection.Relabeling
import Lots.Session.Operation

/-!
# Lots — ids are not observed

Ids tell entries apart and put them in order, and nothing else depends on them. Counting
from another number therefore changes no more than the ids: `renumber n` counts on by `n`,
in entries, statements, runs and sessions, and everything that a session does commutes
with it.

* **`Statement.run_renumber`** — a statement gives the same samples from the same draws. Its
  picks are made by places (`Selection.select_map`), and what was classified is looked up by
  an id of its own (`lookup_renumber`).
* **`perform_renumber`**, **`runs_renumber`** — operations do the same to a renumbered
  session.
* **`observed_runs_of_empty`** — a session without pending entries cannot be told from a
  fresh one with its separators and its source.
-/

namespace Lots

variable {σ : Type}

/-! ## Counting from another number -/

def Entry.renumber (n : Nat) (entry : Entry) : Entry :=
  { entry with id := n + entry.id }

def Statement.renumber (n : Nat) (statement : Statement) : Statement :=
  { statement with entries := statement.entries.map (Entry.renumber n) }

def Ended.renumber (n : Nat) (ended : Ended) : Ended :=
  { ended with statement := ended.statement.renumber n }

/-- What was classified, under other ids. -/
def Classified.renumber (n : Nat) (known : Classified) : Classified :=
  known.map fun (id, expr) => (n + id, expr)

namespace Session

def Failure.renumber (n : Nat) (failure : Failure) : Failure :=
  { failure with
    statement := failure.statement.map (Statement.renumber n)
    discarded := failure.discarded.map (Entry.renumber n) }

def renumber (n : Nat) (s : Session σ) : Session σ :=
  { s with pending := s.pending.map (Entry.renumber n), nextId := n + s.nextId }

def Run.renumber (n : Nat) (run : Run σ) : Run σ :=
  ⟨run.ended.map (Ended.renumber n), run.failure.map (Failure.renumber n),
    Session.renumber n run.state⟩

end Session

/-! ## Statements -/

variable [Source σ] (n : Nat)

theorem lookup_renumber (known : Classified) (id : Nat) :
    (known.renumber n).lookup (n + id) = known.lookup id := by
  unfold Classified.renumber
  induction known with
  | nil => rfl
  | cons first rest ih =>
    obtain ⟨first, expr⟩ := first
    -- ids are only compared with each other
    have hbeq : (n + id == n + first) = (id == first) := by
      rw [Bool.eq_iff_iff, beq_iff_eq, beq_iff_eq]
      omega
    simp only [List.map_cons, List.lookup_cons, hbeq, ih]

theorem classify_renumber (evaluates : Bool) (known : Classified) (entry : Entry) :
    classify evaluates (known.renumber n) (entry.renumber n) =
      (classify evaluates known entry).map fun (expr, known) => (expr, known.renumber n) := by
  cases evaluates with
  | false => rfl
  | true =>
    simp only [classify, Entry.renumber, lookup_renumber, if_true]
    cases known.lookup entry.id with
    | some expr => rfl
    | none =>
      cases Expr.parse entry.text with
      | error cause => rfl
      | ok expr => rfl

theorem evaluatePicks_renumber (evaluates : Bool) (known : Classified) (samples : Array Sample)
    (picks : List Entry) (s : σ) :
    evaluatePicks evaluates (known.renumber n) samples (picks.map (Entry.renumber n)) s =
      evaluatePicks evaluates known samples picks s := by
  induction picks generalizing known samples s with
  | nil => rfl
  | cons entry rest ih =>
    simp only [List.map_cons, evaluatePicks, classify_renumber]
    cases classify evaluates known entry with
    | error cause => rfl
    | ok classified =>
      obtain ⟨expr, known'⟩ := classified
      simp only [Except.map]
      cases expr.evaluate s with
      | none => rfl
      | some drawn =>
        obtain ⟨sample, s'⟩ := drawn
        exact ih known' (samples.push sample) s'

theorem Statement.picks_renumber (statement : Statement) (s : σ) :
    (statement.renumber n).picks s =
      (statement.picks s).map fun (picks, s) => (picks.map (Entry.renumber n), s) := by
  apply Selection.select_map
  -- counting from another number keeps the order of the ids
  intro x y
  exact Nat.add_le_add_iff_left

/-- **A renumbered statement runs as before.** -/
theorem Statement.run_renumber (statement : Statement) (s : σ) :
    (statement.renumber n).run s = statement.run s := by
  have hevaluates : (statement.renumber n).evaluates = statement.evaluates := by
    simp [Statement.evaluates, Statement.population, Statement.renumber]
  rw [Statement.run, Statement.picks_renumber, hevaluates, Statement.run]
  cases statement.picks s with
  | none => rfl
  | some drawn =>
    obtain ⟨picks, s'⟩ := drawn
    exact evaluatePicks_renumber n statement.evaluates [] #[] picks s'

/-! ## Sessions -/

namespace Session

omit [Source σ] in
theorem add_renumber (s : Session σ) (text : List Char) :
    (s.renumber n).add text = (s.add text).renumber n := by
  by_cases hblank : Text.strip text = []
  · rw [add_of_blank _ hblank, add_of_blank _ hblank]
  · rw [add_of_not_blank _ hblank, add_of_not_blank _ hblank]
    simp [renumber, Entry.renumber, Nat.add_assoc]

omit [Source σ] in
theorem addValues_renumber (s : Session σ) (samples : List Sample) :
    (s.renumber n).addValues samples = (s.addValues samples).renumber n := by
  unfold addValues
  induction samples generalizing s with
  | nil => rfl
  | cons sample rest ih =>
    rw [List.foldl_cons, add_renumber, ih, List.foldl_cons]

omit [Source σ] in
theorem andThen_renumber (run : Run σ) {next : Session σ → Run σ}
    (hnext : ∀ t, next (t.renumber n) = (next t).renumber n) :
    (run.renumber n).andThen next = (run.andThen next).renumber n := by
  obtain ⟨ended, failure, state⟩ := run
  cases failure with
  | some failure => rfl
  | none =>
    show (Run.mk _ _ _ : Run σ) = _
    simp [Run.andThen, Run.renumber, hnext]

theorem endStatement_renumber (s : Session σ) (options : Options) :
    (s.renumber n).endStatement options = (s.endStatement options).renumber n := by
  have hstatement : (s.renumber n).statement options = (s.statement options).renumber n := rfl
  have hrun : ((s.renumber n).statement options).run (s.renumber n).source =
      (s.statement options).run s.source := by
    rw [hstatement]
    exact Statement.run_renumber n (s.statement options) s.source
  cases hresult : (s.statement options).run s.source with
  | mk outcome source =>
    rw [hresult] at hrun
    have hcleared : ({ s.renumber n with pending := #[], source } : Session σ) =
        Session.renumber n { s with pending := #[], source } := by
      simp [renumber]
    cases outcome with
    | error error =>
      rw [endStatement_of_error hrun, endStatement_of_error hresult, hcleared, hstatement]
      simp [Run.renumber, Failure.renumber]
    | ok samples =>
      rw [endStatement_of_ok hrun, endStatement_of_ok hresult, hcleared, hstatement]
      cases options.push with
      | false => simp [Run.renumber, Ended.renumber]
      | true => simp [Run.renumber, Ended.renumber, addValues_renumber]

theorem flush_renumber (s : Session σ) : (s.renumber n).flush = s.flush.renumber n := by
  have hempty : (s.renumber n).pending.isEmpty = s.pending.isEmpty := by
    simp [renumber, Array.isEmpty]
  unfold flush
  rw [hempty]
  split
  · rfl
  · exact endStatement_renumber n s {}

omit [Source σ] in
theorem fail_renumber (s : Session σ) (error : Error) :
    (s.renumber n).fail error = (s.fail error).renumber n := by
  unfold fail
  split
  · simp [Run.renumber, Failure.renumber, renumber]
  · simp [Run.renumber, Failure.renumber]

theorem runParts_renumber (fault : Option Line.Fault) (limit : Option Nat)
    (options : Option Options) (parts : List Line.Part) (s : Session σ) :
    runParts fault limit options parts (s.renumber n) =
      (runParts fault limit options parts s).renumber n := by
  fun_induction runParts fault limit options parts s with
  | case1 =>
    rw [runParts_limit_zero]
    rfl
  | case2 limit options s hlimit text rest ih =>
    rw [runParts_entry hlimit, add_renumber]
    exact ih
  | case3 limit options s hlimit text rest cause hparse =>
    rw [runParts_options_of_error hlimit hparse, fail_renumber]
  | case4 limit options s hlimit text rest parsed hparse ih =>
    rw [runParts_options_of_ok hlimit hparse]
    exact ih
  | case5 limit options s hlimit rest ih =>
    rw [runParts_endStmt hlimit, endStatement_renumber]
    exact andThen_renumber n _ ih
  | case6 limit options s hlimit fault hfault =>
    rw [runParts_nil hlimit, hfault]
    exact fail_renumber n s (.line fault)
  | case7 limit s hlimit options hfault =>
    rw [runParts_nil hlimit, hfault]
    exact endStatement_renumber n s options
  | case8 limit s hlimit hfault =>
    rw [runParts_nil hlimit, hfault]
    rfl

theorem runUpTo_renumber (limit : Option Nat) (line : List Char) (s : Session σ) :
    (s.renumber n).runUpTo limit line = (s.runUpTo limit line).renumber n :=
  runParts_renumber n _ limit none _ s

/-- **An operation does the same to a renumbered session.** -/
theorem perform_renumber (s : Session σ) (op : Operation) :
    (s.renumber n).perform op = (s.perform op).renumber n := by
  cases op with
  | add text =>
    show Run.done ((s.renumber n).add text) = _
    rw [add_renumber]
    rfl
  | line text => exact runUpTo_renumber n none text s
  | take limit text => exact runUpTo_renumber n (some limit) text s
  | flush => exact flush_renumber n s
  | setSeparators change =>
    have hseparators : (s.renumber n).separators = s.separators := rfl
    simp only [perform, setSeparators, hseparators]
    cases s.separators.replace change with
    | ok new => rfl
    | error faults => simp [Except.map, Run.renumber, Failure.renumber]

theorem runs_renumber (s : Session σ) (ops : List Operation) :
    (s.renumber n).runs ops = (s.runs ops).map (Run.renumber n) := by
  induction ops generalizing s with
  | nil => rfl
  | cons op rest ih =>
    rw [runs, runs, perform_renumber, List.map_cons, ← ih]
    rfl

/-! ## Observations -/

/-- What can be seen of a run but for ids: what it gave out, the error that stopped it, and
the session that it left. -/
structure Observation (σ : Type) where
  outputs : List (List Sample)
  error : Option Error
  separators : Separators
  texts : List (List Char)
  source : σ

def Run.observed (run : Run σ) : Observation σ :=
  { outputs := run.outputs
    error := run.failure.map (·.error)
    separators := run.state.separators
    texts := run.state.pending.toList.map Entry.text
    source := run.state.source }

omit [Source σ] in
theorem observed_renumber (run : Run σ) : (run.renumber n).observed = run.observed := by
  obtain ⟨ended, failure, state⟩ := run
  have houtputs : (ended.map (Ended.renumber n)).map Ended.output = ended.map Ended.output := by
    rw [List.map_map]
    rfl
  have htexts : ((state.pending.map (Entry.renumber n)).toList.map Entry.text) =
      state.pending.toList.map Entry.text := by
    rw [Array.toList_map, List.map_map]
    rfl
  simp only [Run.observed, Run.renumber, Run.outputs, houtputs, renumber, htexts,
    Option.map_map]
  rfl

omit [Source σ] in
/-- A session without pending entries is a fresh one that counts from its next id. -/
theorem eq_renumber_fresh {s : Session σ} (hpending : s.pending = #[]) :
    s = (fresh s.separators s.source).renumber s.nextId := by
  obtain ⟨separators, pending, nextId, source⟩ := s
  obtain rfl : pending = #[] := hpending
  simp [fresh, renumber]

/-- **A session without pending entries is as good as new.** Whatever is asked of it gives
what a fresh session with its separators and its source gives. -/
theorem observed_runs_of_empty {s : Session σ} (hpending : s.pending = #[])
    (ops : List Operation) :
    (s.runs ops).map Run.observed =
      ((fresh s.separators s.source).runs ops).map Run.observed := by
  have hfresh := eq_renumber_fresh hpending
  calc (s.runs ops).map Run.observed
      = (((fresh s.separators s.source).renumber s.nextId).runs ops).map Run.observed := by
        rw [← hfresh]
    _ = ((fresh s.separators s.source).runs ops).map
          (Run.observed ∘ Run.renumber s.nextId) := by
        rw [runs_renumber, List.map_map]
    _ = ((fresh s.separators s.source).runs ops).map Run.observed := by
        congr 1
        funext run
        exact observed_renumber s.nextId run

end Session

end Lots
