import Lots.Proofs.Session.Gluing
import Lots.Proofs.Session.Renumbering
import Lots.Source.Script

/-!
# Lots — what a failing statement leaves

An error in a query stops a line in one of its statements. What the statements before it
did stays done; the failing statement gives nothing out, makes nothing pending and takes
what was pending with it.

* **`ended_runParts_le`**, **`ended_runParts_ended`** — no run ends more statements than its
  parts do, and one of whole statements ends fewer exactly if it fails.
* **`pending_runParts_of_query`** — an error in a query leaves nothing pending.
* **`query_error_leaves_no_trace`** — both for lines, with the shortest beginning of the line
  that holds the completed statements, and for `flush`.
-/

namespace Lots.Session

variable {σ : Type} [Source σ]

/-! ## Ended statements -/

/-- A statement ends once, unless it fails. -/
theorem ended_endStatement (s : Session σ) (options : Options) :
    (s.endStatement options).ended.length ≤ 1 ∧
      ((s.endStatement options).failure = none ↔ (s.endStatement options).ended.length = 1) := by
  cases hrun : (s.statement options).run s.source with
  | mk outcome source =>
    cases outcome with
    | error error =>
      rw [endStatement_of_error hrun]
      simp
    | ok samples =>
      rw [endStatement_of_ok hrun]
      simp

omit [Source σ] in
theorem ended_fail (s : Session σ) (error : Error) :
    (s.fail error).ended = [] ∧ (s.fail error).failure ≠ none := by
  unfold fail
  split
  · exact ⟨rfl, nofun⟩
  · exact ⟨rfl, nofun⟩

/-- A run that fails has ended no more statements than its parts do. -/
theorem ended_runParts_le (fault : Option Line.Fault) (limit : Option Nat)
    (options : Option Options) (parts : List Line.Part) (s : Session σ) :
    (runParts fault limit options parts s).failure ≠ none →
      (runParts fault limit options parts s).ended.length ≤ parts.count .endStmt := by
  fun_induction runParts fault limit options parts s with
  | case1 => exact fun _ => Nat.zero_le _
  | case2 limit options s hlimit text rest ih =>
    intro hfailure
    simpa using ih hfailure
  | case3 limit options s hlimit text rest cause hparse =>
    intro _
    rw [(ended_fail s (.options cause)).1]
    exact Nat.zero_le _
  | case4 limit options s hlimit text rest parsed hparse ih =>
    intro hfailure
    simpa using ih hfailure
  | case5 limit options s hlimit rest ih =>
    intro hfailure
    obtain ⟨hle, hiff⟩ := ended_endStatement s (options.getD {})
    have hcount : (Line.Part.endStmt :: rest).count .endStmt = rest.count .endStmt + 1 := by simp
    cases hfirst : (s.endStatement (options.getD {})).failure with
    | some failure =>
      rw [Run.andThen_of_failure hfirst, hcount]
      omega
    | none =>
      rw [Run.andThen_of_ok hfirst] at hfailure ⊢
      have hrest := ih (s.endStatement (options.getD {})).state hfailure
      rw [hcount, List.length_append]
      omega
  | case6 limit options s hlimit fault =>
    intro _
    rw [(ended_fail s (.line fault)).1]
    exact Nat.zero_le _
  | case7 limit s hlimit options =>
    intro hfailure
    obtain ⟨hle, hiff⟩ := ended_endStatement s options
    have hne : (s.endStatement options).ended.length ≠ 1 := fun h => hfailure (hiff.mpr h)
    show (s.endStatement options).ended.length ≤ 0
    omega
  | case8 => exact fun _ => Nat.le_refl _

/-- A run of whole statements ends fewer than there are exactly if it fails. -/
theorem ended_runParts_ended (options : Option Options) (before : List Line.Part)
    (s : Session σ) :
    let run := runParts none none options (before ++ [.endStmt]) s
    let count := (before ++ [Line.Part.endStmt]).count .endStmt
    run.ended.length ≤ count ∧ (run.failure = none ↔ run.ended.length = count) := by
  intro run count
  have hlimit : (none : Option Nat) ≠ some 0 := nofun
  induction before generalizing options s with
  | nil =>
    have hrun : run = s.endStatement (options.getD {}) := by
      show runParts none none options [.endStmt] s = _
      rw [runParts_endStmt hlimit]
      exact Run.andThen_done _
    rw [hrun]
    exact ended_endStatement s (options.getD {})
  | cons part before ih =>
    cases part with
    | entry text =>
      have hrun : run = runParts none none options (before ++ [.endStmt]) (s.add text) :=
        runParts_entry hlimit text
      have hcount : count = (before ++ [Line.Part.endStmt]).count .endStmt := by
        simp [count]
      rw [hrun, hcount]
      exact ih options (s.add text)
    | options text =>
      have hcount : count = (before ++ [Line.Part.endStmt]).count .endStmt := by
        simp [count]
      cases hparse : Options.parse text with
      | error cause =>
        have hrun : run = s.fail (.options cause) := runParts_options_of_error hlimit hparse
        obtain ⟨hended, hfailure⟩ := ended_fail s (.options cause)
        -- the last part of all ends a statement, so one at least is missing
        have hpos : 0 < (before ++ [Line.Part.endStmt]).count .endStmt := by simp
        rw [hrun, hcount, hended]
        refine ⟨Nat.zero_le _, fun h => absurd h hfailure, fun h => ?_⟩
        simp only [List.length_nil] at h
        omega
      | ok parsed =>
        have hrun : run = runParts none none (some parsed) (before ++ [.endStmt]) s :=
          runParts_options_of_ok hlimit hparse
        rw [hrun, hcount]
        exact ih (some parsed) s
    | endStmt =>
      have hrun : run = (s.endStatement (options.getD {})).andThen
          (runParts none none none (before ++ [.endStmt])) := runParts_endStmt hlimit
      have hcount : count = (before ++ [Line.Part.endStmt]).count .endStmt + 1 := by
        simp [count]
      obtain ⟨hle, hiff⟩ := ended_endStatement s (options.getD {})
      cases hfirst : (s.endStatement (options.getD {})).failure with
      | some failure =>
        have hne : (s.endStatement (options.getD {})).ended.length ≠ 1 := fun h => by
          rw [hiff.mpr h] at hfirst
          cases hfirst
        rw [hrun, hcount, Run.andThen_of_failure hfirst, hfirst]
        refine ⟨by omega, nofun, fun h => ?_⟩
        have hpos : 0 < (before ++ [Line.Part.endStmt]).count .endStmt := by simp
        omega
      | none =>
        have hone := hiff.mp hfirst
        obtain ⟨hle', hiff'⟩ := ih none (s.endStatement (options.getD {})).state
        rw [hrun, hcount, Run.andThen_of_ok hfirst]
        simp only [List.length_append, hone]
        refine ⟨by omega, fun h => ?_, fun h => hiff'.mpr (by omega)⟩
        rw [hiff'.mp h, Nat.add_comm]

theorem ended_runParts_whole {parts : List Line.Part} (hwhole : Line.Whole parts)
    (s : Session σ) :
    (runParts none none none parts s).failure = none ↔
      (runParts none none none parts s).ended.length = parts.count .endStmt := by
  rcases hwhole with rfl | ⟨before, rfl⟩
  · rw [runParts_nil (by simp)]
    simp [Run.done]
  · exact (ended_runParts_ended none before s).2

/-! ## Pending entries -/

theorem pending_endStatement_of_failure {s : Session σ} {options : Options}
    (hfailure : (s.endStatement options).failure ≠ none) :
    (s.endStatement options).state.pending = #[] := by
  cases hrun : (s.statement options).run s.source with
  | mk outcome source =>
    cases outcome with
    | error error => rw [endStatement_of_error hrun]
    | ok samples =>
      rw [endStatement_of_ok hrun] at hfailure
      exact absurd rfl hfailure

omit [Source σ] in
theorem pending_fail_of_query {s : Session σ} {error : Error} {failure : Failure}
    (hfailure : (s.fail error).failure = some failure) (hquery : failure.error.isQuery = true) :
    (s.fail error).state.pending = #[] := by
  unfold fail at hfailure ⊢
  split
  · rfl
  · next hnot =>
    rw [if_neg hnot] at hfailure
    cases hfailure
    exact absurd hquery hnot

/-- **An error in a query leaves nothing pending.** -/
theorem pending_runParts_of_query (fault : Option Line.Fault) (limit : Option Nat)
    (options : Option Options) (parts : List Line.Part) (s : Session σ) (failure : Failure)
    (hquery : failure.error.isQuery = true) :
    (runParts fault limit options parts s).failure = some failure →
      (runParts fault limit options parts s).state.pending = #[] := by
  fun_induction runParts fault limit options parts s with
  | case1 =>
    intro hfailure
    cases hfailure
  | case2 limit options s hlimit text rest ih => exact ih
  | case3 => exact fun hfailure => pending_fail_of_query hfailure hquery
  | case4 limit options s hlimit text rest parsed hparse ih => exact ih
  | case5 limit options s hlimit rest ih =>
    intro hfailure
    cases hfirst : (s.endStatement (options.getD {})).failure with
    | some failure =>
      rw [Run.andThen_of_failure hfirst]
      apply pending_endStatement_of_failure
      rw [hfirst]
      exact Option.some_ne_none failure
    | none =>
      rw [Run.andThen_of_ok hfirst] at hfailure ⊢
      exact ih _ hfailure
  | case6 => exact fun hfailure => pending_fail_of_query hfailure hquery
  | case7 limit s hlimit options =>
    intro hfailure
    apply pending_endStatement_of_failure
    rw [hfailure]
    exact Option.some_ne_none failure
  | case8 =>
    intro hfailure
    cases hfailure

/-! ## No trace -/

/-- What a failing statement leaves, where the statements before it make a run of their own:
what that run ended and nothing more, no id but for the entries of the failing statement
itself, so none for a sample of it, nothing pending, the separators, and a session that
cannot be told from a fresh one. -/
structure LeavesNoTrace (s : Session σ) (completed run : Run σ) : Prop where
  unfailed : completed.failure = none
  ended : run.ended = completed.ended
  ids : ∀ failure, run.failure = some failure →
    failure.entries.map Entry.id = completed.state.pending.toList.map Entry.id ++
      List.range' completed.state.nextId (run.state.nextId - completed.state.nextId)
  pending : run.state.pending = #[]
  separators : run.state.separators = s.separators
  asNew : ∀ ops, (run.state.runs ops).map Run.observed =
    ((fresh s.separators run.state.source).runs ops).map Run.observed

/-- A failure whose entries are all that left since the completed statements leaves no trace. -/
theorem leavesNoTrace_of_evolves {s : Session σ} {completed run : Run σ} {failure : Failure}
    (hok : completed.failure = none) (hended : run.ended = completed.ended)
    (hfailure : run.failure = some failure)
    (hevolves : Evolves completed.state failure.entries run.state)
    (hpending : run.state.pending = #[])
    (hseparators : completed.state.separators = s.separators) :
    LeavesNoTrace s completed run := by
  have hkept : run.state.separators = s.separators := by
    rw [hevolves.separators, hseparators]
  obtain ⟨given, hnext, hids⟩ := hevolves.conserves
  have hgiven : run.state.nextId - completed.state.nextId = given := by omega
  refine ⟨hok, hended, ?_, hpending, hkept, ?_⟩
  · intro failure' hfailure'
    rw [hfailure] at hfailure'
    cases hfailure'
    rw [hgiven, ← hids, hpending]
    simp
  · intro ops
    rw [observed_runs_of_empty hpending ops, hkept]

theorem leavesNoTrace_runLine {s : Session σ} {line : List Char} {failure : Failure}
    (hline : '\n' ∉ line) (hfailure : (s.runLine line).failure = some failure)
    (hquery : failure.error.isQuery = true) :
    ∃ text, Line.EndsAt s.separators (s.runLine line).ended.length line text ∧
      LeavesNoTrace s (s.runLine text) (s.runLine line) := by
  have hpending : (s.runLine line).state.pending = #[] :=
    pending_runParts_of_query _ _ _ _ s failure hquery hfailure
  have hle : (s.runLine line).ended.length ≤ (Line.split s.separators line).endCount := by
    apply ended_runParts_le
    show (s.runLine line).failure ≠ none
    rw [hfailure]
    nofun
  obtain ⟨text, rest, parts, rfl, hendsAt, hreads, hwhole, hcount⟩ :=
    Line.exists_endsAt hline hle
  refine ⟨text, hendsAt, ?_⟩
  have htext : '\n' ∉ text := fun hmem => hline (List.mem_append_left rest hmem)
  have hglued := runLine_append hline hreads hwhole
  have hwhole := ended_runParts_whole hwhole s
  rw [← runLine_of_reads htext hreads, hcount] at hwhole
  -- either the beginning fails itself, or the rest does with the session that it leaves
  cases hcompleted : (s.runLine text).failure with
  | some failure' =>
    -- a failure before the completed statements end would be the one of the line
    rw [Run.andThen_of_failure hcompleted] at hglued
    rw [hglued] at hwhole
    rw [hwhole.mpr rfl] at hcompleted
    cases hcompleted
  | none =>
    rw [Run.andThen_of_ok hcompleted] at hglued
    let more := (s.runLine text).state.runLine rest
    have hboth : (s.runLine (text ++ rest)).ended = (s.runLine text).ended ++ more.ended := by
      rw [hglued]
      rfl
    -- the beginning has ended as many statements as the line, so the rest ended none
    have hnone : more.ended = [] := by
      have hlengths := congrArg List.length hboth
      rw [List.length_append, hwhole.mp hcompleted] at hlengths
      exact List.length_eq_zero_iff.mp (by omega)
    have hstate : (s.runLine (text ++ rest)).state = more.state := by
      rw [hglued]
      rfl
    have hmoved : (s.runLine (text ++ rest)).failure =
        more.failure.map (Failure.moved (Line.bytes text)) := by
      rw [hglued]
      rfl
    rw [hmoved] at hfailure
    obtain ⟨failure', hfailure', rfl⟩ := Option.map_eq_some_iff.mp hfailure
    have hevolves : Evolves (s.runLine text).state failure'.entries more.state := by
      have hmore : Evolves (s.runLine text).state more.spent more.state :=
        evolves_runUpTo none rest _
      rw [Run.spent, hnone, hfailure'] at hmore
      exact hmore
    refine leavesNoTrace_of_evolves hcompleted ?_ (hmoved.trans hfailure) ?_ hpending
      (runLine_separators text s)
    · rw [hboth, hnone, List.append_nil]
    · rw [hstate]
      exact hevolves

theorem leavesNoTrace_flush {s : Session σ} {failure : Failure}
    (hfailure : s.flush.failure = some failure) : LeavesNoTrace s (.done s) s.flush := by
  have hevolves : s.flush.Evolves s := evolves_flush s
  unfold flush at hfailure hevolves ⊢
  split at hfailure
  · cases hfailure
  · next hsome =>
    rw [if_neg hsome] at hevolves ⊢
    have hne : (s.endStatement {}).failure ≠ none := by
      rw [hfailure]
      nofun
    obtain ⟨hle, hiff⟩ := ended_endStatement s {}
    have hended : (s.endStatement {}).ended = [] := by
      have hone : (s.endStatement {}).ended.length ≠ 1 := fun h => hne (hiff.mpr h)
      exact List.length_eq_zero_iff.mp (by omega)
    have hentries : Evolves s failure.entries (s.endStatement {}).state := by
      unfold Run.Evolves at hevolves
      rw [Run.spent, hended, hfailure] at hevolves
      exact hevolves
    exact leavesNoTrace_of_evolves rfl hended hfailure hentries
      (pending_endStatement_of_failure hne) rfl

/-- **An error in a query leaves no trace.** On a line, the statements completed before it
are those of the shortest beginning that ends as many, and that beginning runs without a
failure; a flush completes none before its own. -/
theorem query_error_leaves_no_trace (s : Session σ) :
    (∀ line failure, '\n' ∉ line → (s.runLine line).failure = some failure →
      failure.error.isQuery = true →
      ∃ text, Line.EndsAt s.separators (s.runLine line).ended.length line text ∧
        LeavesNoTrace s (s.runLine text) (s.runLine line)) ∧
    (∀ failure, s.flush.failure = some failure → failure.error.isQuery = true →
      LeavesNoTrace s (.done s) s.flush) := by
  refine ⟨?_, ?_⟩
  · intro line failure hline hfailure hquery
    exact leavesNoTrace_runLine hline hfailure hquery
  · intro failure hfailure _
    exact leavesNoTrace_flush hfailure

/-- Dice without sides fail once the entry before them was given out, and also at a flush. -/
theorem no_trace_of_dice_without_sides :
    let s : Session Script := fresh {} ⟨[]⟩
    let line := ['a', ';', '1', 'd', '0', ';', 'b']
    let t := s.add ['1', 'd', '0']
    let error := Error.expression (.roll (.zero .sides))
    (s.runLine line).failure.map (·.error) = some error ∧
      (∃ text, Line.EndsAt s.separators 1 line text ∧
        LeavesNoTrace s (s.runLine text) (s.runLine line)) ∧
      t.flush.failure.map (·.error) = some error ∧ LeavesNoTrace t (.done t) t.flush := by
  intro s line t error
  have hline : (s.runLine line).failure.map (·.error) = some error := by decide +kernel
  have hended : (s.runLine line).ended.length = 1 := by decide +kernel
  have hflush : t.flush.failure.map (·.error) = some error := by decide +kernel
  refine ⟨hline, ?_, hflush, ?_⟩
  · obtain ⟨failure, hfailure, herror⟩ := Option.map_eq_some_iff.mp hline
    have hquery : failure.error.isQuery = true := by
      rw [herror]
      rfl
    rw [← hended]
    exact (query_error_leaves_no_trace s).1 line failure (by decide) hfailure hquery
  · obtain ⟨failure, hfailure, herror⟩ := Option.map_eq_some_iff.mp hflush
    have hquery : failure.error.isQuery = true := by
      rw [herror]
      rfl
    exact (query_error_leaves_no_trace t).2 failure hfailure hquery

end Lots.Session
