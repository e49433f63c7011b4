import Lots.Program
import Lots.Proofs.Session.Failure

/-!
# Lots — lines of a program do not meet

Each line of a program ends its last statement, so it leaves nothing pending. What the next
line finds are the separators and the source of draws, and a counter of ids that it cannot
see.

* **`pending_runLines`** — nothing is pending between two lines.
* **`runLine_of_blank`** — a blank line does nothing at all.
* **`run_append_newline`** — a program that is cut at a line feed runs as its two pieces do,
  also where the cut leaves an empty line.
* **`run_glue`** — the second piece runs as it would on a fresh session with the source that
  the first one left.
-/

namespace Lots

/-! ## Blank lines -/

namespace Line

theorem plain_of_blank (sep : Separators) {c : Char} (h : Text.isBlank c = true) :
    c ∉ reservedChars ∧ ¬ sep.Separates c := by
  have hcan : ∀ d, canSeparate d = true → c ≠ d := by
    rintro d hd rfl
    simp [canSeparate, h] at hd
  refine ⟨?_, ?_⟩
  · have hreserved : reservedChars.all (!Text.isBlank ·) = true := by decide
    intro hmem
    have hnot := List.all_eq_true.mp hreserved c hmem
    rw [h] at hnot
    cases hnot
  · rintro (hc | hc | hc)
    · exact hcan _ sep.canSeparate_entry hc
    · exact hcan _ sep.canSeparate_options hc
    · exact hcan _ sep.canSeparate_stmt hc

theorem balanced_of_blank (sep : Separators) {s : List Char} (h : ∀ c ∈ s, Text.isBlank c = true) :
    Balanced sep false s := by
  induction s with
  | nil => exact .nil
  | cons c rest ih =>
    obtain ⟨hplain, hsep⟩ := plain_of_blank sep (h c List.mem_cons_self)
    exact .plain hplain (.inr hsep) (ih fun d hd => h d (List.mem_cons_of_mem c hd))

/-- A blank line holds one entry at most, and that one is empty. -/
theorem split_of_blank (sep : Separators) {line : List Char} (hline : '\n' ∉ line)
    (h : ∀ c ∈ line, Text.isBlank c = true) :
    split sep line = ⟨if line = [] then [] else [.entry []], none⟩ := by
  have hreads : (Cursor.start 0).Reads sep line [] ((Cursor.start 0).past line) :=
    Cursor.reads_slice rfl ⟨line, balanced_of_blank sep h⟩
  have htrim : trim line = [] := by simp [trim, Text.strip_of_blank h, isString]
  rw [split_eq_splitFrom hline, Cursor.splitFrom_of_reads hreads]
  simp [Cursor.finish, Cursor.past, Cursor.start, Cursor.text, Split.after, htrim]

end Line

namespace Session

variable {σ : Type} [Source σ]

theorem runLine_of_blank {line : List Char} (hline : '\n' ∉ line)
    (h : ∀ c ∈ line, Text.isBlank c = true) (s : Session σ) : s.runLine line = .done s := by
  have hlimit : (none : Option Nat) ≠ some 0 := nofun
  rw [runLine, runUpTo, Line.split_of_blank s.separators hline h]
  by_cases hempty : line = []
  · simp only [hempty, if_true]
    exact runParts_nil hlimit
  · simp only [hempty, if_false]
    rw [runParts_entry hlimit, add_of_blank s rfl]
    exact runParts_nil hlimit

/-- What was seen, behind other outputs. -/
def Observation.after (outputs : List (List Sample)) (seen : Observation σ) : Observation σ :=
  { seen with outputs := outputs ++ seen.outputs }

omit [Source σ] in
theorem observed_andThen {run : Run σ} (h : run.failure = none) (next : Session σ → Run σ) :
    (run.andThen next).observed = (next run.state).observed.after run.outputs := by
  rw [Run.andThen_of_ok h]
  simp [Run.observed, Run.outputs, Observation.after]

/-! ## The end of a line -/

theorem pending_flush (s : Session σ) : s.flush.state.pending = #[] := by
  unfold flush
  split
  · next hempty => simpa [Run.done] using hempty
  · cases hrun : (s.statement {}).run s.source with
    | mk outcome source =>
      cases outcome with
      | error error => rw [endStatement_of_error hrun]
      | ok samples =>
        rw [endStatement_of_ok hrun]
        rfl

theorem flush_of_empty {s : Session σ} (h : s.pending = #[]) : s.flush = .done s := by
  simp [flush, h]

end Session

namespace Program

open Session

variable {σ : Type} [Source σ]

theorem pending_runLine {line : List Char} {s : Session σ}
    (h : (runLine line s).failure = none) : (runLine line s).state.pending = #[] := by
  unfold runLine at h ⊢
  cases hfirst : (s.runLine line).failure with
  | some failure =>
    rw [Run.andThen_of_failure hfirst, hfirst] at h
    cases h
  | none =>
    rw [Run.andThen_of_ok hfirst]
    exact pending_flush _

/-! ## Lines one after the other -/

theorem runLines_append (before after : List (List Char)) (s : Session σ) :
    runLines (before ++ after) s = (runLines before s).andThen (runLines after) := by
  induction before generalizing s with
  | nil => rfl
  | cons line rest ih =>
    simp only [List.cons_append, runLines, Run.andThen_assoc]
    congr 1
    funext t
    exact ih t

theorem runLines_renumber (n : Nat) (lines : List (List Char)) (s : Session σ) :
    runLines lines (s.renumber n) = (runLines lines s).renumber n := by
  induction lines generalizing s with
  | nil => rfl
  | cons line rest ih =>
    have hline : runLine line (s.renumber n) = (runLine line s).renumber n := by
      rw [runLine, Session.runLine, runUpTo_renumber]
      exact andThen_renumber n _ fun t => flush_renumber n t
    rw [runLines, hline]
    exact andThen_renumber n _ ih

theorem evolves_runLines (lines : List (List Char)) (s : Session σ) :
    (runLines lines s).Evolves s := by
  induction lines generalizing s with
  | nil => exact evolves_done s
  | cons line rest ih =>
    have hline : (runLine line s).Evolves s :=
      Run.Evolves.andThen (evolves_runUpTo none line s) evolves_flush
    exact hline.andThen ih

/-- **Nothing is pending between two lines.** -/
theorem pending_runLines (lines : List (List Char)) {s : Session σ} (hs : s.pending = #[])
    (h : (runLines lines s).failure = none) : (runLines lines s).state.pending = #[] := by
  induction lines generalizing s with
  | nil => exact hs
  | cons line rest ih =>
    rw [runLines] at h ⊢
    cases hfirst : (runLine line s).failure with
    | some failure =>
      rw [Run.andThen_of_failure hfirst, hfirst] at h
      cases h
    | none =>
      rw [Run.andThen_of_ok hfirst] at h ⊢
      exact ih (pending_runLine hfirst) h

/-- Blank lines do nothing between other lines. -/
theorem runLines_of_blank {lines : List (List Char)} (hlines : ∀ line ∈ lines, '\n' ∉ line)
    (h : ∀ line ∈ lines, ∀ c ∈ line, Text.isBlank c = true) {s : Session σ}
    (hs : s.pending = #[]) : runLines lines s = .done s := by
  induction lines with
  | nil => rfl
  | cons line rest ih =>
    have hline : runLine line s = .done s := by
      rw [runLine, runLine_of_blank (hlines line List.mem_cons_self) (h line List.mem_cons_self)]
      exact flush_of_empty hs
    rw [runLines, hline]
    exact ih (fun line' h' => hlines line' (List.mem_cons_of_mem line h'))
      fun line' h' => h line' (List.mem_cons_of_mem line h')

/-! ## Programs -/

theorem newline_not_mem_programLines {program line : List Char}
    (h : line ∈ Text.programLines program) : '\n' ∉ line := by
  intro hmem
  have hbreak := Text.not_isBreak_of_mem_linesBy h hmem
  revert hbreak
  decide

/-- A blank program does nothing. -/
theorem run_of_blank {program : List Char} (h : ∀ c ∈ program, Text.isBlank c = true)
    {s : Session σ} (hs : s.pending = #[]) : run program s = .done s :=
  runLines_of_blank (fun _ hline => newline_not_mem_programLines hline)
    (fun _ hline c hc => h c (Text.mem_of_mem_linesBy hline hc)) hs

/-- **A program runs in two goes** where a line feed cuts it. If the cut leaves an empty line,
that one does nothing. -/
theorem run_append_newline {s : Session σ} (hs : s.pending = #[]) (p q : List Char) :
    run (p ++ '\n' :: q) s = (run p s).andThen (run q) := by
  have hfeed : Text.isProgramBreak '\n' = true := by decide
  have hreturn : Text.isProgramBreak '\r' = true := by decide
  obtain ⟨blank, hblank, hlines⟩ := Text.linesBy_append_newline hfeed hreturn p q
  have hempty : ∀ t : Session σ, t.pending = #[] → runLines blank t = .done t := by
    intro t ht
    rcases hblank with rfl | rfl
    · rfl
    · exact runLines_of_blank (by simp) (by simp) ht
  have hfirst : (run p s).andThen (runLines blank) = run p s := by
    cases hfailure : (run p s).failure with
    | some failure => exact Run.andThen_of_failure hfailure _
    | none =>
      have hpending : (run p s).state.pending = #[] := pending_runLines _ hs hfailure
      exact (andThen_congr (hempty _ hpending)).trans (Run.andThen_done _)
  calc run (p ++ '\n' :: q) s
      = runLines (Text.programLines p ++ blank ++ Text.programLines q) s := by
        rw [run, Text.programLines, hlines]
        rfl
    _ = ((run p s).andThen (runLines blank)).andThen (run q) := by
        rw [runLines_append, runLines_append]
        rfl
    _ = (run p s).andThen (run q) := by rw [hfirst]

/-- A program sees no more of a session without pending entries than of a fresh one. -/
theorem observed_run_of_empty {s : Session σ} (hs : s.pending = #[]) (program : List Char) :
    (run program s).observed = (run program (fresh s.separators s.source)).observed := by
  have hrun : run program s =
      (run program (fresh s.separators s.source)).renumber s.nextId := by
    have hrenumber := runLines_renumber s.nextId (Text.programLines program)
      (fresh s.separators s.source)
    rw [← eq_renumber_fresh hs] at hrenumber
    exact hrenumber
  rw [hrun, observed_renumber]

/-- **Lines of a program are isolated.** Nothing is pending between two of them. A program
that a line feed glues to another runs as it does alone, and goes on if it did not fail: what
follows gives what it gives on a fresh session whose source is in the state that the first one
left. Blank lines, also at the cut, give nothing and draw nothing. -/
theorem run_glue (separators : Separators) (source : σ) (p q : List Char) :
    let s := fresh separators source
    let first := run p s
    let second := run q (fresh separators first.state.source)
    let glued := run (p ++ '\n' :: q) s
    (∀ before, before <+: Text.programLines p → (runLines before s).failure = none →
        (runLines before s).state.pending = #[]) ∧
      (first.failure ≠ none → glued = first) ∧
      (first.failure = none → glued.observed = second.observed.after first.outputs) ∧
      ∀ blank, (∀ c ∈ blank, Text.isBlank c = true) →
        run blank s = .done s ∧ run (p ++ '\n' :: (blank ++ '\n' :: q)) s = glued := by
  intro s first second glued
  have hs : s.pending = #[] := rfl
  have hglued : glued = first.andThen (run q) := run_append_newline hs p q
  refine ⟨?_, ?_, ?_, ?_⟩
  · intro before _ hok
    exact pending_runLines before hs hok
  · intro hfails
    obtain ⟨failure, hfailure⟩ := Option.ne_none_iff_exists'.mp hfails
    rw [hglued, Run.andThen_of_failure hfailure]
  · intro hok
    have hpending : first.state.pending = #[] := pending_runLines _ hs hok
    have hseparators : first.state.separators = separators :=
      Evolves.separators (evolves_runLines (Text.programLines p) s)
    have hsecond : (run q first.state).observed = second.observed := by
      rw [observed_run_of_empty hpending, hseparators]
    rw [hglued, observed_andThen hok, hsecond]
  · intro blank hblank
    refine ⟨run_of_blank hblank hs, ?_⟩
    rw [run_append_newline hs, hglued]
    cases hfailure : first.failure with
    | some failure => rw [Run.andThen_of_failure hfailure, Run.andThen_of_failure hfailure]
    | none =>
      have hpending : first.state.pending = #[] := pending_runLines _ hs hfailure
      apply andThen_congr
      rw [run_append_newline hpending, run_of_blank hblank hpending, Run.done_andThen]

/-- A pushed entry is given out at the end of its line. The line feed completes the break
behind it, a blank line changes nothing, and dice without sides end the run. -/
theorem run_glue_pushed_entry :
    let s : Session Script := fresh {} ⟨[]⟩
    let p := ['a', '/', 'p', '\r']
    let q := ['b']
    let bad := ['1', 'd', '0']
    (run (p ++ '\n' :: q) s).observed = (run q s).observed.after [[], [.text ['a']]] ∧
      run (p ++ '\n' :: ([' ', '\t'] ++ '\n' :: q)) s = run (p ++ '\n' :: q) s ∧
      (run bad s).failure ≠ none ∧ run (bad ++ '\n' :: q) s = run bad s := by
  intro s p q bad
  have hok : (run p s).failure = none := by decide +kernel
  have hsource : (run p s).state.source = s.source := by decide +kernel
  have houtputs : (run p s).outputs = [[], [.text ['a']]] := by decide +kernel
  have hbad : (run bad s).failure ≠ none := by decide +kernel
  have hblank : ∀ c ∈ [' ', '\t'], Text.isBlank c = true := List.all_eq_true.mp (by decide)
  have hfresh : fresh s.separators s.source = s := rfl
  obtain ⟨-, -, hglued, hblanks⟩ := run_glue s.separators s.source p q
  obtain ⟨-, hfails, -, -⟩ := run_glue s.separators s.source bad q
  rw [hfresh] at hglued hfails
  have hobserved := hglued hok
  rw [hsource, houtputs, hfresh] at hobserved
  exact ⟨hobserved, (hblanks [' ', '\t'] hblank).2, hbad, hfails hbad⟩

end Program

end Lots
