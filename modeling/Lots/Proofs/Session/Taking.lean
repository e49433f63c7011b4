import Lots.Proofs.Line.Derivation
import Lots.Proofs.Session.Failure

/-!
# Lots — a line that is left early

Statements end one after the other, and each leaves the session as it is when its output is
given out. So a line that is left behind an output was run up to the end of that statement:
what is still to come was neither read nor run.

* **`runParts_limit`** — a limit counts the statement ends that are run, and stops at the last
  of them; one that the parts do not reach changes nothing (`runParts_limit_of_count_lt`).
* **`exists_clause_of_ended`** — a line that ends a statement more than it holds statement
  separators gives options for its last one.
* **`take_runs_beginning`** — the two together: taking outputs of a line runs a beginning of it.
-/

namespace Lots

namespace Session

variable {σ : Type} [Source σ]

/-! ## Limits -/

/-- **A limit counts statement ends.** Behind the end of a statement a run goes on with the
limit that is left. -/
theorem runParts_limit (fault : Option Line.Fault) (left : Nat) (options : Option Options)
    (before more : List Line.Part) (s : Session σ) :
    runParts fault (some (before.count .endStmt + 1 + left)) options (before ++ .endStmt :: more) s =
      (runParts none none options (before ++ [.endStmt]) s).andThen
        (runParts fault (some left) none more) := by
  have hnone : (none : Option Nat) ≠ some 0 := nofun
  induction before generalizing options s with
  | nil =>
    have hlimit : some (([] : List Line.Part).count .endStmt + 1 + left) ≠ some 0 := by simp
    rw [List.nil_append, List.nil_append, runParts_endStmt hlimit, runParts_endStmt hnone,
      Run.andThen_assoc]
    -- one end is counted off, and the second run has nothing left to do
    have hleft : (some (([] : List Line.Part).count .endStmt + 1 + left)).map (· - 1) =
        some left := by simp
    rw [hleft]
    rfl
  | cons part before ih =>
    have hlimit : some ((part :: before).count .endStmt + 1 + left) ≠ some 0 := by
      simp
    simp only [List.cons_append]
    cases part with
    | entry text =>
      rw [runParts_entry hlimit, runParts_entry hnone]
      simpa using ih options (s.add text)
    | options text =>
      cases hparse : Options.parse text with
      | error cause =>
        rw [runParts_options_of_error hlimit hparse, runParts_options_of_error hnone hparse]
        unfold fail
        split <;> rfl
      | ok parsed =>
        rw [runParts_options_of_ok hlimit hparse, runParts_options_of_ok hnone hparse]
        simpa using ih (some parsed) s
    | endStmt =>
      rw [runParts_endStmt hlimit, runParts_endStmt hnone, Run.andThen_assoc]
      have hleft : (some ((Line.Part.endStmt :: before).count .endStmt + 1 + left)).map (· - 1) =
          some (before.count .endStmt + 1 + left) := by
        simp [Nat.add_right_comm]
      rw [hleft]
      congr 1
      funext t
      exact ih none t

/-- Whole statements are all that a limit of as many ends runs. -/
theorem runParts_limit_whole {parts : List Line.Part} (hwhole : Line.Whole parts)
    (fault : Option Line.Fault) (more : List Line.Part) (s : Session σ) :
    runParts fault (some (parts.count .endStmt)) none (parts ++ more) s =
      runParts none none none parts s := by
  rcases hwhole with rfl | ⟨before, rfl⟩
  · rw [List.count_nil, runParts_limit_zero, runParts_nil (by simp)]
  · have hcount : (before ++ [Line.Part.endStmt]).count .endStmt =
        before.count .endStmt + 1 + 0 := by simp
    rw [hcount, List.append_assoc, List.singleton_append, runParts_limit]
    -- with nothing left of the limit, what follows is not run
    have hstop : (runParts fault (some 0) none more : Session σ → Run σ) = Run.done := by
      funext t
      exact runParts_limit_zero
    rw [hstop, Run.andThen_done]

/-- A limit that the parts do not reach changes nothing. -/
theorem runParts_limit_of_count_lt (fault : Option Line.Fault) {limit : Nat}
    (options : Option Options) {parts : List Line.Part} (s : Session σ)
    (h : parts.count .endStmt < limit) :
    runParts fault (some limit) options parts s = runParts fault none options parts s := by
  have hnone : (none : Option Nat) ≠ some 0 := nofun
  induction parts generalizing limit options s with
  | nil =>
    have hlimit : some limit ≠ some 0 := by
      rw [List.count_nil] at h
      simpa using Nat.ne_of_gt h
    rw [runParts_nil hlimit, runParts_nil hnone]
  | cons part rest ih =>
    have hlimit : some limit ≠ some 0 := by
      have hpos : 0 < limit := Nat.lt_of_le_of_lt (Nat.zero_le _) h
      simpa using Nat.ne_of_gt hpos
    cases part with
    | entry text =>
      rw [runParts_entry hlimit, runParts_entry hnone]
      exact ih options (s.add text) (by simpa using h)
    | options text =>
      cases hparse : Options.parse text with
      | error cause =>
        rw [runParts_options_of_error hlimit hparse, runParts_options_of_error hnone hparse]
      | ok parsed =>
        rw [runParts_options_of_ok hlimit hparse, runParts_options_of_ok hnone hparse]
        exact ih (some parsed) s (by simpa using h)
    | endStmt =>
      rw [runParts_endStmt hlimit, runParts_endStmt hnone]
      congr 1
      funext t
      have hless : rest.count .endStmt < limit - 1 := by
        rw [List.count_cons_self] at h
        omega
      exact ih none t hless

/-! ## Options at the end of a line -/

omit [Source σ] in
theorem length_outputs (run : Run σ) : run.outputs.length = run.ended.length :=
  List.length_map _

omit [Source σ] in
theorem length_ended_andThen (run : Run σ) (next : Session σ → Run σ) :
    (run.andThen next).ended.length ≤ run.ended.length + (next run.state).ended.length := by
  cases hfailure : run.failure with
  | some failure =>
    rw [Run.andThen_of_failure hfailure]
    exact Nat.le_add_right _ _
  | none =>
    apply Nat.le_of_eq
    rw [Run.andThen_of_ok hfailure, List.length_append]

/-- Behind the last statement end at most one more statement ends. -/
theorem ended_runParts_le_succ (fault : Option Line.Fault) (limit : Option Nat)
    (options : Option Options) (parts : List Line.Part) (s : Session σ) :
    (runParts fault limit options parts s).ended.length ≤ parts.count .endStmt + 1 := by
  fun_induction runParts fault limit options parts s with
  | case1 => exact Nat.zero_le _
  | case2 limit options s hlimit text rest ih => simpa using ih
  | case3 limit options s hlimit text rest cause hparse =>
    rw [(ended_fail s (.options cause)).1]
    exact Nat.zero_le _
  | case4 limit options s hlimit text rest parsed hparse ih => simpa using ih
  | case5 limit options s hlimit rest ih =>
    have hone := (ended_endStatement s (options.getD {})).1
    have hrest := ih (s.endStatement (options.getD {})).state
    refine Nat.le_trans (length_ended_andThen _ _) ?_
    rw [List.count_cons_self]
    omega
  | case6 limit options s hlimit fault =>
    rw [(ended_fail s (.line fault)).1]
    exact Nat.zero_le _
  | case7 limit s hlimit options => exact (ended_endStatement s options).1
  | case8 => exact Nat.zero_le _

theorem ended_runParts_whole_le {parts : List Line.Part} (hwhole : Line.Whole parts)
    (s : Session σ) :
    (runParts none none none parts s).ended.length ≤ parts.count .endStmt := by
  rcases hwhole with rfl | ⟨before, rfl⟩
  · rw [runParts_nil (by simp)]
    exact Nat.zero_le _
  · exact (ended_runParts_ended none before s).1

theorem ended_runParts_entries (texts : List (List Char)) (s : Session σ) :
    (runParts none none none (texts.map Line.Part.entry) s).ended = [] := by
  have hlimit : (none : Option Nat) ≠ some 0 := nofun
  induction texts generalizing s with
  | nil =>
    rw [List.map_nil, runParts_nil hlimit]
    rfl
  | cons text rest ih =>
    rw [List.map_cons, runParts_entry hlimit]
    exact ih (s.add text)

/-- A line with a fault fails, if nothing stops it before. -/
theorem fault_of_runParts_ok (fault : Option Line.Fault) (options : Option Options)
    (parts : List Line.Part) (s : Session σ)
    (h : (runParts fault none options parts s).failure = none) : fault = none := by
  have hlimit : (none : Option Nat) ≠ some 0 := nofun
  induction parts generalizing options s with
  | nil =>
    cases fault with
    | none => rfl
    | some fault =>
      rw [runParts_nil hlimit] at h
      exact absurd h (ended_fail s (.line fault)).2
  | cons part rest ih =>
    cases part with
    | entry text =>
      rw [runParts_entry hlimit] at h
      exact ih options (s.add text) h
    | options text =>
      cases hparse : Options.parse text with
      | error cause =>
        rw [runParts_options_of_error hlimit hparse] at h
        exact absurd h (ended_fail s (.options cause)).2
      | ok parsed =>
        rw [runParts_options_of_ok hlimit hparse] at h
        exact ih (some parsed) s h
    | endStmt =>
      rw [runParts_endStmt hlimit] at h
      cases hfirst : (s.endStatement (options.getD {})).failure with
      | some failure =>
        rw [Run.andThen_of_failure hfirst, hfirst] at h
        cases h
      | none =>
        rw [Run.andThen_of_ok hfirst] at h
        exact ih none (s.endStatement (options.getD {})).state h

/-- **A statement that no separator ends has options.** A line that ends more statements than
it holds statement ends does not fail, and its tree ends in an options clause. -/
theorem exists_clause_of_ended {s : Session σ} {line : List Char}
    (h : (Line.split s.separators line).endCount < (s.runLine line).ended.length) :
    (s.runLine line).failure = none ∧
      ∃ tree : Line.Tree s.separators, tree.text = line ∧
        tree.ended.length = (Line.split s.separators line).endCount ∧
        tree.last.clause.isSome = true := by
  have hok : (s.runLine line).failure = none := by
    cases hfailure : (s.runLine line).failure with
    | none => rfl
    | some failure =>
      have hle := ended_runParts_le _ none none _ s (hfailure ▸ Option.some_ne_none failure)
      exact absurd hle (Nat.not_le_of_lt h)
  have hfault : (Line.split s.separators line).fault = none := fault_of_runParts_ok _ _ _ s hok
  obtain ⟨tree, htext, hparts⟩ := Line.exists_tree_of_split hfault
  have hcount : (Line.split s.separators line).endCount = tree.ended.length := by
    rw [Line.Split.endCount, ← hparts, Line.Tree.parts, List.count_append,
      Line.count_flatMap_endedParts, Line.count_openParts, Nat.add_zero]
  refine ⟨hok, tree, htext, hcount.symm, ?_⟩
  cases hclause : tree.last.clause with
  | some clause => rfl
  | none =>
    -- then only entries stand behind the last statement end
    obtain ⟨texts, htexts⟩ := Line.openParts_of_no_clause hclause
    have hrun : s.runLine line =
        (runParts none none none (tree.ended.flatMap Line.StmtTree.endedParts) s).andThen
          (runParts none none none (texts.map Line.Part.entry)) := by
      rw [runLine, runUpTo, hfault, ← hparts, Line.Tree.parts, htexts]
      exact runParts_whole (Line.whole_flatMap_endedParts tree.ended) none _ s
    have hwhole := ended_runParts_whole_le (Line.whole_flatMap_endedParts tree.ended) s
    have hentries := ended_runParts_entries texts
      (runParts none none none (tree.ended.flatMap Line.StmtTree.endedParts) s).state
    have hboth := length_ended_andThen
      (runParts none none none (tree.ended.flatMap Line.StmtTree.endedParts) s)
      (runParts none none none (texts.map Line.Part.entry))
    rw [hentries, ← hrun] at hboth
    rw [Line.count_flatMap_endedParts] at hwhole
    simp only [List.length_nil] at hboth
    omega

/-! ## Taking -/

/-- The beginning of a line that holds so many statement ends is all that is run for as many
outputs, whatever stands behind it. -/
theorem runUpTo_of_reads {s : Session σ} {text : List Char} {parts : List Line.Part}
    (h : (Line.Cursor.start 0).Reads s.separators text parts (.start (Line.bytes text)))
    (hwhole : Line.Whole parts) {rest : List Char} (hline : '\n' ∉ text ++ rest) :
    s.runUpTo (some (parts.count .endStmt)) (text ++ rest) = s.runLine text := by
  have htext : '\n' ∉ text := fun hmem => hline (List.mem_append_left rest hmem)
  rw [runUpTo, Line.split_append hline h, runLine_of_reads htext h]
  exact runParts_limit_whole hwhole _ _ s

/-- A beginning that ends no more statements than the line does not fail, and what it gives out
is what the line gives out first. -/
theorem completed_of_reads {s : Session σ} {text rest : List Char} {parts : List Line.Part}
    {k : Nat} (hline : '\n' ∉ text ++ rest)
    (h : (Line.Cursor.start 0).Reads s.separators text parts (.start (Line.bytes text)))
    (hwhole : Line.Whole parts) (hcount : parts.count .endStmt = k)
    (hyields : k ≤ (s.runLine (text ++ rest)).ended.length) :
    (s.runLine text).failure = none ∧
      (s.runLine text).outputs = (s.runLine (text ++ rest)).outputs.take k := by
  have htext : '\n' ∉ text := fun hmem => hline (List.mem_append_left rest hmem)
  have hle := ended_runParts_whole_le hwhole s
  have hiff := ended_runParts_whole hwhole s
  rw [← runLine_of_reads htext h, hcount] at hle hiff
  have hglued := runLine_append hline h hwhole
  have hok : (s.runLine text).failure = none := by
    cases hfailure : (s.runLine text).failure with
    | none => rfl
    | some failure =>
      -- a failure of the beginning is that of the line, which then ends too few statements
      rw [hglued, Run.andThen_of_failure hfailure] at hyields
      rw [hiff.mpr (by omega)] at hfailure
      cases hfailure
  refine ⟨hok, ?_⟩
  rw [hglued, Run.andThen_of_ok hok, ← hiff.mp hok]
  simp [Run.outputs]

/-- **Taking outputs runs a beginning of the line.** To take none changes nothing. To take so
many of the outputs that a line gives is to run the shortest beginning that ends as many
statements, with whatever behind it; or the whole line, if the last output is that of the
options at its end. -/
theorem take_runs_beginning (s : Session σ) :
    (∀ line, s.runUpTo (some 0) line = .done s) ∧
      ∀ line k, '\n' ∉ line → 0 < k → k ≤ (s.runLine line).outputs.length →
        let taken := s.runUpTo (some k) line
        taken.failure = none ∧ taken.outputs = (s.runLine line).outputs.take k ∧
          ((∃ text, Line.EndsAt s.separators k line text ∧ taken = s.runLine text ∧
              ∀ rest, '\n' ∉ rest → s.runUpTo (some k) (text ++ rest) = taken) ∨
            (taken = s.runLine line ∧ ∃ tree : Line.Tree s.separators, tree.text = line ∧
              tree.ended.length + 1 = k ∧ tree.last.clause.isSome = true)) := by
  refine ⟨fun line => runParts_limit_zero, ?_⟩
  intro line k hline hpos hyields taken
  rw [length_outputs] at hyields
  by_cases hends : k ≤ (Line.split s.separators line).endCount
  · obtain ⟨text, rest, parts, rfl, hendsAt, hreads, hwhole, hcount⟩ :=
      Line.exists_endsAt hline hends
    have htext : '\n' ∉ text := fun hmem => hline (List.mem_append_left rest hmem)
    have htaken : ∀ rest, '\n' ∉ rest → s.runUpTo (some k) (text ++ rest) = s.runLine text := by
      intro rest hrest
      rw [← hcount]
      exact runUpTo_of_reads hreads hwhole (by simp [htext, hrest])
    have hrest : '\n' ∉ rest := fun hmem => hline (List.mem_append_right text hmem)
    have hrun : taken = s.runLine text := htaken rest hrest
    obtain ⟨hok, houtputs⟩ := completed_of_reads hline hreads hwhole hcount hyields
    refine ⟨by rw [hrun, hok], by rw [hrun, houtputs], .inl ⟨text, hendsAt, hrun, ?_⟩⟩
    intro rest' hrest'
    rw [htaken rest' hrest', hrun]
  · have hless : (Line.split s.separators line).endCount < k := Nat.lt_of_not_le hends
    have hrun : taken = s.runLine line := runParts_limit_of_count_lt _ none s hless
    have hmore : (s.runLine line).ended.length ≤ (Line.split s.separators line).endCount + 1 :=
      ended_runParts_le_succ _ _ _ _ s
    obtain ⟨hok, tree, htext, hcount, hclause⟩ :=
      exists_clause_of_ended (Nat.lt_of_lt_of_le hless hyields)
    refine ⟨by rw [hrun, hok], ?_, .inr ⟨hrun, tree, htext, by omega, hclause⟩⟩
    rw [hrun, List.take_of_length_le]
    rw [length_outputs]
    omega

/-- The output before the dice without sides can be taken, and the line fails behind it. -/
theorem take_before_dice_without_sides :
    let s : Session Script := fresh {} ⟨[]⟩
    let line := ['a', ';', '1', 'd', '0', ';', 'b']
    let taken := s.runUpTo (some 1) line
    '\n' ∉ line ∧ (s.runLine line).failure.isSome = true ∧ taken.failure = none ∧
      taken.outputs = [[.text ['a']]] ∧
      ∃ text, Line.EndsAt s.separators 1 line text ∧ taken = s.runLine text := by
  intro s line taken
  have hline : '\n' ∉ line := by decide
  have houtputs : (s.runLine line).outputs = [[.text ['a']]] := by decide +kernel
  have hfails : (s.runLine line).failure.isSome = true := by decide +kernel
  have hyields : 1 ≤ (s.runLine line).outputs.length := by
    rw [houtputs]
    decide
  obtain ⟨hok, htake, hcases⟩ := (take_runs_beginning s).2 line 1 hline (by decide) hyields
  refine ⟨hline, hfails, hok, by rw [htake, houtputs]; rfl, ?_⟩
  rcases hcases with ⟨text, hendsAt, hrun, -⟩ | ⟨hrun, -⟩
  · exact ⟨text, hendsAt, hrun⟩
  · -- the whole line is not what was run, since it fails
    rw [← hrun, hok] at hfails
    cases hfails

end Session

end Lots
