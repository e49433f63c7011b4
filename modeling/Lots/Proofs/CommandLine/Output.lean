import Lots.CommandLine
import Lots.Proofs.Program.Isolation
import Lots.Proofs.Sample.Rendering
import Lots.Proofs.Session.Texts
import Lots.Source.Script
import Mathlib.Algebra.GroupWithZero.Nat

/-!
# Lots — output in lines

What a program or a command line gives out has one line for each sample. No line feed gets into
an entry: lines of a program and of standard input end there, a query with a line feed is
refused, and values that are drawn have none. So every rendering stays on its line, and the
line feeds of the output tell its samples apart.

* **`inherited_unbroken`** — texts without line feeds stay so.
* **`confined_perform`** — standard input and the query, for any property that is inherited.
* **`run_cases`** — what a run of the command line comes down to.
* **`samples_in_lines`** — the lines of what is given out are the renderings of the samples.
-/

namespace Lots

open Text (Inherited)
open Session (Run)

variable {σ : Type} [Source σ]

/-- A text of one line. -/
def Text.Unbroken (text : List Char) : Prop :=
  '\n' ∉ text

theorem Text.Unbroken.piece {s t : List Char} (h : Unbroken t) (hs : s <:+: t) : Unbroken s :=
  fun hmem => h (hs.subset hmem)

theorem inherited_unbroken : Inherited σ Text.Unbroken Text.Unbroken where
  given hpiece htext := htext.piece hpiece
  entry htext := htext
  piece hpiece htext := htext.piece hpiece
  value _ hno := (Sample.unblank_value hno).newline_not_mem

/-- Samples whose renderings are lines: as many in full as of their values, and those of rolls
and intervals with the value last. -/
structure Sample.Lined (samples : List Sample) : Prop where
  lines : ∀ valueOnly, InLines valueOnly samples (renderAll valueOnly samples)
  same_count : (renderAll false samples).count '\n' = (renderAll true samples).count '\n'
  value_last : ∀ x ∈ samples,
    (∃ outcome, x = .roll outcome) ∨ (∃ i number, x = .interval i number) → x.ValueLast

theorem Sample.lined {samples : List Sample} (h : ∀ x ∈ samples, ∀ t, x = .text t → '\n' ∉ t) :
    Lined samples where
  lines := inLines_renderAll h
  same_count := by rw [(inLines_renderAll h false).count, (inLines_renderAll h true).count]
  value_last := by
    rintro x - (⟨outcome, rfl⟩ | ⟨i, number, rfl⟩)
    · exact valueLast_roll outcome
    · exact valueLast_interval i number

namespace Session

omit [Source σ] in
theorem Run.Confined.outputs {Q P : List Char → Prop} {run : Run σ} (h : run.Confined Q P) :
    ∀ samples ∈ run.outputs, ∀ x ∈ samples, ∀ t, x = .text t → P t := by
  intro samples hsamples x hx
  obtain ⟨ended, hended, rfl⟩ := List.mem_map.mp hsamples
  refine h.samples ended hended x ?_
  unfold Ended.output at hx
  split at hx
  · cases hx
  · exact hx

/-- A line with a line feed is refused, and nothing else happens. -/
theorem runLine_of_newline {line : List Char} (h : '\n' ∈ line) (s : Session σ) :
    s.runLine line = ⟨[], some { error := .line .newline }, s⟩ := by
  have hlimit : (none : Option Nat) ≠ some 0 := nofun
  have hsplit : Line.split s.separators line = ⟨[], some .newline⟩ :=
    if_pos (List.contains_iff_mem.mpr h)
  rw [runLine, runUpTo, hsplit]
  exact runParts_nil hlimit

omit [Source σ] in
/-- Both runs of a row ended well if the row did. -/
theorem Run.failure_of_andThen {run : Run σ} {next : Session σ → Run σ}
    (h : (run.andThen next).failure = none) :
    run.failure = none ∧ (next run.state).failure = none := by
  cases hfailure : run.failure with
  | some failure =>
    rw [andThen_of_failure hfailure, hfailure] at h
    cases h
  | none =>
    rw [andThen_of_ok hfailure] at h
    exact ⟨rfl, h⟩

end Session

namespace CommandLine

/-! ## Standard input and the query -/

/-- The lines of standard input that a run reads. -/
def Arguments.linesIn (args : Arguments) (env : Environment) : List (List Char) :=
  if args.readsInput env.isTerminal then dataLines env.stdin else []

theorem newline_not_mem_dataLines {stdin line : List Char} (h : line ∈ dataLines stdin) :
    '\n' ∉ line := by
  obtain ⟨hline, -⟩ := List.mem_filter.mp h
  obtain ⟨raw, hraw, rfl⟩ := List.mem_map.mp hline
  intro hmem
  -- stripping adds nothing, so the line feed would be in the line that it ends
  have hbreak := Text.not_isBreak_of_mem_linesBy hraw ((Text.strip_isInfix raw).subset hmem)
  revert hbreak
  decide

theorem newline_not_mem_linesIn (args : Arguments) (env : Environment) :
    ∀ line ∈ args.linesIn env, '\n' ∉ line := by
  unfold Arguments.linesIn
  split
  · exact fun line hline => newline_not_mem_dataLines hline
  · exact List.forall_mem_nil _

section

variable {Q P : List Char → Prop} (h : Inherited σ Q P)
include h

theorem confined_feed (evaluated : Bool) {lines : List (List Char)}
    (hlines : ∀ line ∈ lines, Q line) {s : Session σ} (hs : s.Holds P) :
    (feed evaluated lines s).Confined Q P := by
  induction lines generalizing s with
  | nil => exact Session.confined_done hs
  | cons line rest ih =>
    obtain ⟨hline, hrest⟩ := List.forall_mem_cons.mp hlines
    rw [feed]
    split
    · exact (Session.confined_runLine h hs hline).andThen fun t ht => ih hrest ht
    · exact ih hrest (Session.holds_add h hs (h.entry hline))

/-- Every text of a run is from standard input or the query, as far as the property goes. -/
theorem confined_perform {args : Arguments} {env : Environment}
    (hlines : ∀ line ∈ args.linesIn env, Q line) (hquery : Q (args.query.getD []))
    {s : Session σ} (hs : s.Holds P) : (perform args env s).Confined Q P := by
  have hfed : (feed args.evalStdin (args.linesIn env) s).Confined Q P :=
    confined_feed h args.evalStdin hlines hs
  exact (hfed.andThen fun t ht => Session.confined_runLine h ht hquery).andThen
    fun t ht => Session.confined_flush h ht

end

/-- A query with a line feed is refused once standard input is taken in. -/
theorem perform_of_newline {args : Arguments} {env : Environment}
    (h : '\n' ∈ args.query.getD []) (s : Session σ) :
    perform args env s = (feed args.evalStdin (args.linesIn env) s).andThen fun t =>
      ⟨[], some { error := .line .newline }, t⟩ := by
  have hrefused : ∀ t : Session σ, (t.runLine (args.query.getD [])).andThen Session.flush =
      ⟨[], some { error := .line .newline }, t⟩ := by
    intro t
    rw [Session.runLine_of_newline h]
    rfl
  show ((feed args.evalStdin (args.linesIn env) s).andThen fun t =>
    t.runLine (args.query.getD [])).andThen Session.flush = _
  rw [Run.andThen_assoc]
  congr 1
  funext t
  exact hrefused t

/-- No query with a line feed ends well. -/
theorem newline_not_mem_of_perform {args : Arguments} {env : Environment} {s : Session σ}
    (h : (perform args env s).failure = none) : '\n' ∉ args.query.getD [] := by
  intro hmem
  rw [perform_of_newline hmem] at h
  exact absurd (Run.failure_of_andThen h).2 nofun

/-! ## Runs of the command line -/

/-- The arguments are read, the seed is known, and this is the session that starts. -/
structure Starts (texts : List (List Char)) (env : Environment) (args : Arguments)
    (s : Session Twister) : Prop where
  parse : Arguments.parse texts = .ok args
  session : ∃ seed, args.seedIn env = .ok seed ∧
    ({ source := .ofSeed seed } : Session Twister).setSeparators args.separators = .ok s

theorem Starts.pending {texts : List (List Char)} {env : Environment} {args : Arguments}
    {s : Session Twister} (h : Starts texts env args s) : s.pending = #[] := by
  obtain ⟨seed, -, hs⟩ := h.session
  unfold Session.setSeparators at hs
  cases hreplace : ({ source := .ofSeed seed } : Session Twister).separators.replace
      args.separators with
  | error faults => simp [hreplace, Except.map] at hs
  | ok separators =>
    simp only [hreplace, Except.map] at hs
    cases hs
    rfl

/-- **A run of the command line** shows its help, is refused before anything runs, or reports
on the session that it starts. -/
theorem run_cases (texts : List (List Char)) (env : Environment) :
    (Arguments.parse texts = .error .help ∧ run texts env = { stdout := helpText.toList }) ∨
      (∃ error, run texts env = refuse error) ∨
      (∃ faults, run texts env = conclude {} (some (.separators faults))) ∨
      ∃ args s, Starts texts env args s ∧ run texts env = reportOf args (perform args env s) := by
  unfold run
  cases hparse : Arguments.parse texts with
  | error stop =>
    cases stop with
    | help => exact .inl ⟨rfl, rfl⟩
    | usage error => exact .inr (.inl ⟨error, rfl⟩)
  | ok args =>
    dsimp only [execute]
    cases hseed : args.seedIn env with
    | error error => exact .inr (.inl ⟨error, rfl⟩)
    | ok seed =>
      dsimp only
      cases hs : ({ source := .ofSeed seed } : Session Twister).setSeparators args.separators with
      | error faults => exact .inr (.inr (.inl ⟨faults, rfl⟩))
      | ok s => exact .inr (.inr (.inr ⟨args, s, ⟨hparse, seed, hseed, hs⟩, rfl⟩))

theorem run_of_starts {texts : List (List Char)} {env : Environment} {args : Arguments}
    {s : Session Twister} (h : Starts texts env args s) :
    run texts env = reportOf args (perform args env s) := by
  obtain ⟨seed, hseed, hs⟩ := h.session
  simp only [run, h.parse, execute, hseed, hs]

/-- Only a run that did not fail gives the status of success. -/
theorem failure_of_reportOf {args : Arguments} {done : Run Twister}
    (h : (reportOf args done).exit = some 0) : done.failure = none := by
  cases hfailure : done.failure with
  | none => rfl
  | some failure =>
    simp only [reportOf, hfailure, Option.map_some, conclude] at h
    split at h <;> cases h

theorem stdout_reportOf (args : Arguments) (done : Run Twister) :
    (reportOf args done).stdout = Sample.renderAll args.hideExpr done.outputs.flatten := by
  rw [← Sample.flatMap_renderAll, reportOf]
  cases done.failure with
  | none => rfl
  | some failure =>
    simp only [Option.map_some, conclude]
    split <;> rfl

/-- **One line for each sample.** The samples of each statement of a program are rendered in
lines, and so are those of all statements that a command line ran, if it ends with the status
of success and was not asked for help. -/
theorem samples_in_lines (separators : Separators) (source : σ) (program : List Char)
    (texts : List (List Char)) (env : Environment) :
    (∀ samples ∈ (Program.run program (Session.fresh separators source)).outputs,
      Sample.Lined samples) ∧
    ((run texts env).exit = some 0 → Arguments.parse texts ≠ .error .help →
      ∃ args s, Starts texts env args s ∧
        let done := perform args env s
        done.failure = none ∧ (∀ samples ∈ done.outputs, Sample.Lined samples) ∧
          Sample.InLines args.hideExpr done.outputs.flatten (run texts env).stdout ∧
          (run texts env).stdout.count '\n' = (done.outputs.map List.length).sum) := by
  constructor
  · have hfresh : (Session.fresh separators source).Holds Text.Unbroken :=
      Session.holds_of_empty rfl
    have hrun : (Program.run program (Session.fresh separators source)).Confined
        Text.Unbroken Text.Unbroken :=
      Program.confined_runLines inherited_unbroken
        (fun _ hline => Program.newline_not_mem_programLines hline) hfresh
    exact fun samples hsamples => Sample.lined (hrun.outputs samples hsamples)
  · intro hexit hhelp
    rcases run_cases texts env with ⟨hparse, -⟩ | ⟨error, hrun⟩ | ⟨faults, hrun⟩ |
      ⟨args, s, hstarts, hrun⟩
    · exact absurd hparse hhelp
    -- what is refused has another status
    · rw [hrun] at hexit
      cases hexit
    · rw [hrun] at hexit
      cases hexit
    · rw [hrun] at hexit ⊢
      -- the query was not refused, so there is no line feed in it
      have hfailure := failure_of_reportOf hexit
      have hdone : (perform args env s).Confined Text.Unbroken Text.Unbroken :=
        confined_perform inherited_unbroken (newline_not_mem_linesIn args env)
          (newline_not_mem_of_perform hfailure) (Session.holds_of_empty hstarts.pending)
      have hall : ∀ x ∈ (perform args env s).outputs.flatten, ∀ t, x = .text t → '\n' ∉ t := by
        intro x hx
        obtain ⟨samples, hsamples, hmem⟩ := List.mem_flatten.mp hx
        exact hdone.outputs samples hsamples x hmem
      have hlines := Sample.inLines_renderAll hall args.hideExpr
      refine ⟨args, s, hstarts, hfailure, ?_, ?_, ?_⟩
      · exact fun samples hsamples => Sample.lined (hdone.outputs samples hsamples)
      · rw [stdout_reportOf]
        exact hlines
      · rw [stdout_reportOf, hlines.count, List.length_flatten]

/-- A roll with a modifier is shown with its dice, so its value stands behind the equals sign. A
command line that lists two texts gives two lines. -/
theorem samples_in_lines_roll_and_list :
    let s : Session Script := Session.fresh {} ⟨[3]⟩
    let roll := Sample.roll ⟨{ modifier := 1 }, [⟨3, false⟩]⟩
    let texts := [['a', ',', 'b', '/', 'l', 'i', 's', 't']]
    let env : Environment := { isTerminal := true }
    ((Program.run ['d', '6', '+', '1'] s).outputs = [[roll]] ∧ Sample.Lined [roll] ∧
      Sample.renderAll false [roll] = "d6+1: [3]+1 = 4\n".toList) ∧
    (run texts env).exit = some 0 ∧ Arguments.parse texts ≠ .error .help ∧
      (run texts env).stdout = ['a', '\n', 'b', '\n'] ∧
      ∃ args t, Starts texts env args t ∧
        Sample.InLines args.hideExpr (perform args env t).outputs.flatten
          (run texts env).stdout := by
  intro s roll texts env
  have houtputs : (Program.run ['d', '6', '+', '1'] s).outputs = [[roll]] := by decide +kernel
  have hrendered : Sample.renderAll false [roll] = "d6+1: [3]+1 = 4\n".toList := by
    decide +kernel
  have hexit : (run texts env).exit = some 0 := by decide +kernel
  have hhelp : Arguments.parse texts ≠ .error .help := by decide +kernel
  have hstdout : (run texts env).stdout = ['a', '\n', 'b', '\n'] := by decide +kernel
  have hlines := samples_in_lines {} (⟨[3]⟩ : Script) ['d', '6', '+', '1'] texts env
  have hlined : Sample.Lined [roll] := hlines.1 [roll] (by rw [houtputs]; exact List.mem_cons_self)
  obtain ⟨args, t, hstarts, -, -, hprinted, -⟩ := hlines.2 hexit hhelp
  exact ⟨⟨houtputs, hlined, hrendered⟩, hexit, hhelp, hstdout, args, t, hstarts, hprinted⟩

end CommandLine

end Lots
