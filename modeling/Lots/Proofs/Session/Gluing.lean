import Lots.Proofs.Line.Gluing
import Lots.Proofs.Session.Evolution
import Lots.Source.Script

/-!
# Lots — a line in two goes

A line that is cut behind a statement separator runs as its two pieces do, one after the
other. Only the faults of the second piece are found further on.

* **`runParts_moved`** — a fault further on changes nothing but where it is found: no other
  error knows its place in the line.
* **`runParts_whole`** — parts of whole statements leave nothing open, so the parts behind
  them run as if they came first.
  So do parts with entries behind whole statements (`runParts_settled`).
* **`runLine_append_settled`** — the two together, for any place where a line begins anew.
* **`runLine_glue`** — for the place behind a statement separator.
-/

namespace Lots

/-! ## Moving -/

/-- The same error, with a fault of the line so many bytes further on. -/
def Error.moved (n : Nat) : Error → Error
  | .line fault => .line (fault.moved n)
  | error => error

theorem Error.isQuery_moved (n : Nat) (error : Error) :
    (error.moved n).isQuery = error.isQuery := by
  cases error with
  | line fault => cases fault <;> rfl
  | options cause => rfl
  | expression cause => rfl
  | separators faults => rfl
  | exhausted => rfl

namespace Session

def Failure.moved (n : Nat) (failure : Failure) : Failure :=
  { failure with error := failure.error.moved n }

def Run.moved {σ : Type} (n : Nat) (run : Run σ) : Run σ :=
  { run with failure := run.failure.map (Failure.moved n) }

end Session

variable {σ : Type} [Source σ] (n : Nat)

theorem moved_of_evaluatePicks {evaluates : Bool} {known : Classified} {samples : Array Sample}
    {picks : List Entry} {s s' : σ} {error : Error}
    (h : evaluatePicks evaluates known samples picks s = (.error error, s')) :
    error.moved n = error := by
  induction picks generalizing known samples s with
  | nil => cases h
  | cons entry rest ih =>
    rw [evaluatePicks] at h
    split at h
    · cases h
      rfl
    split at h
    · cases h
      rfl
    · exact ih h

/-- The errors of a statement are none of the line. -/
theorem Statement.moved_of_run {statement : Statement} {s s' : σ} {error : Error}
    (h : statement.run s = (.error error, s')) : error.moved n = error := by
  unfold Statement.run at h
  split at h
  · cases h
    rfl
  · exact moved_of_evaluatePicks n h

namespace Session

omit [Source σ] in
theorem andThen_moved (run : Run σ) (next : Session σ → Run σ) :
    (run.andThen next).moved n = (run.moved n).andThen fun t => (next t).moved n := by
  obtain ⟨ended, failure, state⟩ := run
  cases failure with
  | some failure => rfl
  | none => rfl

omit [Source σ] in
theorem fail_moved (s : Session σ) (error : Error) :
    s.fail (error.moved n) = (s.fail error).moved n := by
  unfold fail
  rw [Error.isQuery_moved]
  split
  · rfl
  · rfl

theorem endStatement_moved (s : Session σ) (options : Options) :
    (s.endStatement options).moved n = s.endStatement options := by
  cases hrun : (s.statement options).run s.source with
  | mk outcome source =>
    cases outcome with
    | error error =>
      rw [endStatement_of_error hrun]
      simp [Run.moved, Failure.moved, Statement.moved_of_run n hrun]
    | ok samples =>
      rw [endStatement_of_ok hrun]
      rfl

/-- **A fault further on is found further on**, and nothing else changes. -/
theorem runParts_moved (fault : Option Line.Fault) (limit : Option Nat)
    (options : Option Options) (parts : List Line.Part) (s : Session σ) :
    runParts (fault.map (Line.Fault.moved n)) limit options parts s =
      (runParts fault limit options parts s).moved n := by
  fun_induction runParts fault limit options parts s with
  | case1 =>
    rw [runParts_limit_zero]
    rfl
  | case2 limit options s hlimit text rest ih =>
    rw [runParts_entry hlimit]
    exact ih
  | case3 limit options s hlimit text rest cause hparse =>
    rw [runParts_options_of_error hlimit hparse, ← fail_moved]
    rfl
  | case4 limit options s hlimit text rest parsed hparse ih =>
    rw [runParts_options_of_ok hlimit hparse]
    exact ih
  | case5 limit options s hlimit rest ih =>
    rw [runParts_endStmt hlimit, andThen_moved, endStatement_moved]
    congr 1
    funext t
    exact ih t
  | case6 limit options s hlimit fault hfault =>
    rw [runParts_nil hlimit, hfault]
    exact fail_moved n s (.line fault)
  | case7 limit s hlimit options hfault =>
    rw [runParts_nil hlimit, hfault]
    exact (endStatement_moved n s options).symm
  | case8 limit s hlimit hfault =>
    rw [runParts_nil hlimit, hfault]
    rfl

/-! ## Whole statements -/

/-- What stands behind the end of a statement runs on with what the statement leaves. -/
theorem runParts_ended (fault : Option Line.Fault) (options : Option Options)
    (before more : List Line.Part) (s : Session σ) :
    runParts fault none options (before ++ .endStmt :: more) s =
      (runParts none none options (before ++ [.endStmt]) s).andThen
        (runParts fault none none more) := by
  have hlimit : (none : Option Nat) ≠ some 0 := nofun
  induction before generalizing options s with
  | nil =>
    rw [List.nil_append, List.nil_append, runParts_endStmt hlimit, runParts_endStmt hlimit,
      Run.andThen_assoc]
    -- behind the end of the statement the first run has nothing left to do
    rfl
  | cons part before ih =>
    simp only [List.cons_append]
    cases part with
    | entry text => rw [runParts_entry hlimit, runParts_entry hlimit, ih]
    | options text =>
      cases hparse : Options.parse text with
      | error cause =>
        rw [runParts_options_of_error hlimit hparse, runParts_options_of_error hlimit hparse]
        unfold fail
        split
        · rfl
        · rfl
      | ok parsed =>
        rw [runParts_options_of_ok hlimit hparse, runParts_options_of_ok hlimit hparse, ih]
    | endStmt =>
      rw [runParts_endStmt hlimit, runParts_endStmt hlimit, Run.andThen_assoc]
      congr 1
      funext t
      exact ih none t

/-- **Whole statements leave nothing open.** -/
theorem runParts_whole {parts : List Line.Part} (hwhole : Line.Whole parts)
    (fault : Option Line.Fault) (more : List Line.Part) (s : Session σ) :
    runParts fault none none (parts ++ more) s =
      (runParts none none none parts s).andThen (runParts fault none none more) := by
  rcases hwhole with rfl | ⟨before, rfl⟩
  · -- no parts at all do nothing
    rw [runParts_nil (by simp)]
    rfl
  · rw [List.append_assoc, List.singleton_append]
    exact runParts_ended fault none before more s

/-- Entries only join the ones that are pending. -/
theorem runParts_entries (fault : Option Line.Fault) (options : Option Options)
    (texts : List (List Char)) (more : List Line.Part) (s : Session σ) :
    runParts fault none options (texts.map Line.Part.entry ++ more) s =
      runParts fault none options more (texts.foldl add s) := by
  have hlimit : (none : Option Nat) ≠ some 0 := nofun
  induction texts generalizing s with
  | nil => rfl
  | cons text rest ih =>
    rw [List.map_cons, List.cons_append, runParts_entry hlimit, ih]
    rfl

/-- Entries behind whole statements leave nothing open either. -/
theorem runParts_settled {parts : List Line.Part} (hsettled : Line.Settled parts)
    (fault : Option Line.Fault) (more : List Line.Part) (s : Session σ) :
    runParts fault none none (parts ++ more) s =
      (runParts none none none parts s).andThen (runParts fault none none more) := by
  obtain ⟨whole, texts, hwhole, rfl⟩ := hsettled
  rw [List.append_assoc, runParts_whole hwhole, runParts_whole hwhole, Run.andThen_assoc]
  congr 1
  funext t
  have hopen : runParts none none none (texts.map Line.Part.entry) t =
      Run.done (texts.foldl add t) := by
    rw [← List.append_nil (texts.map Line.Part.entry), runParts_entries, runParts_nil (by simp)]
  rw [runParts_entries, hopen, Run.done_andThen]

/-! ## Lines -/

theorem runLine_separators (line : List Char) (s : Session σ) :
    (s.runLine line).state.separators = s.separators :=
  Evolves.separators (evolves_runUpTo none line s)

omit [Source σ] in
theorem andThen_congr {run : Run σ} {next next' : Session σ → Run σ}
    (h : next run.state = next' run.state) : run.andThen next = run.andThen next' := by
  obtain ⟨ended, failure, state⟩ := run
  cases failure with
  | some failure => rfl
  | none => simp only [Run.andThen] at h ⊢; rw [h]

theorem runLine_of_reads {s : Session σ} {text : List Char} {parts : List Line.Part}
    (hline : '\n' ∉ text)
    (h : (Line.Cursor.start 0).Reads s.separators text parts (.start (Line.bytes text))) :
    s.runLine text = runParts none none none parts s := by
  rw [runLine, runUpTo, Line.split_of_reads hline h]

/-- **A line runs in two goes** where it begins anew and no options wait. -/
theorem runLine_append_settled {s : Session σ} {text rest : List Char} {parts : List Line.Part}
    (hline : '\n' ∉ text ++ rest)
    (h : (Line.Cursor.start 0).Reads s.separators text parts (.start (Line.bytes text)))
    (hsettled : Line.Settled parts) :
    s.runLine (text ++ rest) =
      (s.runLine text).andThen fun t => (t.runLine rest).moved (Line.bytes text) := by
  have htext : '\n' ∉ text := fun hmem => hline (List.mem_append_left rest hmem)
  have hseparators := runLine_separators text s
  -- behind the first piece the separators are those that the line was split with
  have hrest : ∀ t : Session σ, t.separators = s.separators →
      runParts ((Line.split s.separators rest).fault.map (Line.Fault.moved (Line.bytes text)))
        none none (Line.split s.separators rest).parts t =
      (t.runLine rest).moved (Line.bytes text) := by
    intro t ht
    rw [runParts_moved, runLine, runUpTo, ht]
  calc s.runLine (text ++ rest)
      = (runParts none none none parts s).andThen
          (runParts ((Line.split s.separators rest).fault.map (Line.Fault.moved (Line.bytes text)))
            none none (Line.split s.separators rest).parts) := by
        rw [runLine, runUpTo, Line.split_append hline h]
        exact runParts_settled hsettled _ _ s
    _ = (s.runLine text).andThen fun t => (t.runLine rest).moved (Line.bytes text) := by
        rw [← runLine_of_reads htext h]
        exact andThen_congr (hrest _ hseparators)

/-- So it does behind whole statements. -/
theorem runLine_append {s : Session σ} {text rest : List Char} {parts : List Line.Part}
    (hline : '\n' ∉ text ++ rest)
    (h : (Line.Cursor.start 0).Reads s.separators text parts (.start (Line.bytes text)))
    (hwhole : Line.Whole parts) :
    s.runLine (text ++ rest) =
      (s.runLine text).andThen fun t => (t.runLine rest).moved (Line.bytes text) :=
  runLine_append_settled hline h hwhole.settled

/-- **Statements glue.** If a line has no fault, a second one behind it and a statement
separator runs as if it came next: after a failure not at all, and else with the session
that the first one leaves, its outputs behind the first one's. Its error is the same, only
that a fault of the line is found further on, by the bytes that stand before. -/
theorem runLine_glue (s : Session σ) {line next : List Char} (hnext : '\n' ∉ next)
    (hfault : (Line.split s.separators line).fault = none) :
    s.runLine (line ++ s.separators.stmt :: next) =
      (s.runLine (line ++ [s.separators.stmt])).andThen fun t =>
        (t.runLine next).moved (String.ofList (line ++ [s.separators.stmt])).utf8ByteSize := by
  have hline : '\n' ∉ line := by
    intro hmem
    simp [Line.split, hmem] at hfault
  obtain ⟨before, hreads⟩ := Line.reads_ended hfault
  have hstmt := Line.stmt_ne_newline s.separators
  have hall : '\n' ∉ line ++ [s.separators.stmt] ++ next := by
    simp [hline, hnext, hstmt.symm]
  have hglued := runLine_append hall hreads (.inr ⟨before, rfl⟩)
  rw [List.append_assoc, List.singleton_append] at hglued
  rw [Line.utf8ByteSize_ofList]
  exact hglued

/-- The letter before the separator takes two bytes, so the string opens behind three. -/
theorem runLine_glue_two_bytes :
    let s : Session Script := fresh {} ⟨[]⟩
    '\n' ∉ ['"', 'x'] ∧ (Line.split s.separators ['é']).fault = none ∧
      (s.runLine ['é', ';', '"', 'x']).outputs = [[.text ['é']]] ∧
      (s.runLine ['é', ';', '"', 'x']).failure.map (·.error) =
        some (.line (.unclosedString 3)) := by
  intro s
  have hnext : '\n' ∉ ['"', 'x'] := by decide
  have hfault : (Line.split s.separators ['é']).fault = none := by decide
  have hglued : s.runLine ['é', ';', '"', 'x'] = _ := runLine_glue s hnext hfault
  refine ⟨hnext, hfault, ?_, ?_⟩
  · rw [hglued]
    decide
  · rw [hglued]
    decide

end Session

end Lots
