import Lots.Proofs.CommandLine.Arguments
import Lots.Proofs.CommandLine.Output
import Lots.Proofs.Sample.Lengths

/-!
# Lots — how a command line ends

A run of the command line ends well, with an error of the query, or with an error of usage. It
is broken off only if the query holds a line feed, if the modifiers of a roll have a sum that is
too long to be shown, or if the draws run out. No other number is too long: those that were
typed are not, and those that were drawn are short or are no notation.

* **`Traced`** — a text that was typed, or one that was drawn and cannot be refused.
* **`inherited_traced`** — every entry has such a text, if the given texts were typed.
* **`error_of_perform`** — so what goes wrong is the query's, or is listed in `BreaksOff`.
* **`run_settles`** — how a run ends, for all arguments and every environment.
-/

namespace Lots.CommandLine

open Text (DigitRun Inherited Sparse)
open Numeral (digitLimit)
open Session (Run)

/-! ## Texts that were typed or drawn -/

/-- A piece of one of these texts that is on one line. -/
structure Typed (inputs : List (List Char)) (text : List Char) : Prop where
  unbroken : Text.Unbroken text
  piece : ∃ input ∈ inputs, text <:+: input

/-- Where the text of an entry is from. -/
inductive Traced (inputs : List (List Char)) (text : List Char) : Prop
  /-- It was typed. -/
  | typed {input : List Char} (mem : input ∈ inputs) (piece : text <:+: input)
  /-- It was drawn and is too short for a number that is refused. -/
  | short (length_le : text.length ≤ digitLimit)
  /-- It was drawn and is in no notation. -/
  | sparse (sparse : Sparse 1 text)

theorem inherited_traced (inputs : List (List Char)) :
    Inherited Twister (Typed inputs) (Traced inputs) where
  given := by
    rintro s t hs ⟨hunbroken, input, hmem, hpiece⟩
    exact ⟨hunbroken.piece hs, input, hmem, hs.trans hpiece⟩
  entry := by
    rintro s ⟨-, input, hmem, hpiece⟩
    exact .typed hmem hpiece
  piece := by
    intro s t hs ht
    cases ht with
    | typed hmem hpiece => exact .typed hmem (hs.trans hpiece)
    | short hlength => exact .short (Nat.le_trans hs.length_le hlength)
    | sparse hsparse => exact .sparse (hsparse.sublist hs.sublist)
  value := by
    intro expr sample g g' hevaluate hno
    rcases Sample.short_or_sparse hevaluate hno with hshort | hsparse
    · exact .short (Nat.le_trans hshort (by decide))
    · exact .sparse hsparse

theorem typed_linesIn {args : Arguments} {env : Environment} {inputs : List (List Char)}
    (h : env.stdin ∈ inputs) : ∀ line ∈ args.linesIn env, Typed inputs line := by
  intro line hline
  refine ⟨newline_not_mem_linesIn args env line hline, env.stdin, h, ?_⟩
  unfold Arguments.linesIn at hline
  split at hline
  · obtain ⟨hstripped, -⟩ := List.mem_filter.mp hline
    obtain ⟨raw, hraw, rfl⟩ := List.mem_map.mp hstripped
    exact (Text.strip_isInfix raw).trans ((Text.linesBy_pieces _ env.stdin).2 raw hraw)
  · cases hline

/-! ## Errors -/

/-- What breaks a run off, and where it was typed. -/
inductive BreaksOff (texts : List (List Char)) (env : Environment) : Error → Prop
  /-- The query is not on one line. -/
  | newline {args : Arguments} (parse : Arguments.parse texts = .ok args)
      (mem : '\n' ∈ args.query.getD []) : BreaksOff texts env (.line .newline)
  /-- The modifiers of a roll have a sum that is too long to be shown. -/
  | modifiers {input roll : List Char} {written : Roll.Notation} {cause : Expr.Error}
      (mem : input ∈ env.stdin :: texts) (piece : roll <:+: input)
      (writes : Roll.Notation.ofText? roll = some written) (unwritten : written.Unwritten .writing)
      (parse : Expr.parse roll = .error cause) (tooLong : cause.tooLong? = some .writing) :
      BreaksOff texts env (.expression cause)
  /-- The draws run out. -/
  | exhausted : BreaksOff texts env .exhausted

/-- No run of digits is too long to be read as a number. -/
def ShortRuns (texts : List (List Char)) : Prop :=
  ∀ text ∈ texts, ∀ digits, DigitRun digits text → digits.length ≤ digitLimit

theorem shortRuns_of_length_le {texts : List (List Char)}
    (h : ∀ text ∈ texts, text.length ≤ digitLimit) : ShortRuns texts :=
  fun text htext _ hrun => Nat.le_trans hrun.within.length_le (h text htext)

section

variable {texts : List (List Char)} {env : Environment} {args : Arguments} {s : Session Twister}

/-- What is wrong with an expression is the query's, or a sum that is not shown. -/
theorem error_of_parse (hshort : ShortRuns (env.stdin :: texts)) {text : List Char}
    (htext : Traced (env.stdin :: texts) text) {cause : Expr.Error}
    (hparse : Expr.parse text = .error cause) :
    (Error.expression cause).isQuery = true ∨ BreaksOff texts env (.expression cause) := by
  cases htooLong : cause.tooLong? with
  | none => exact .inl (by simp [Error.isQuery, htooLong])
  | some refused =>
    right
    have hrefused := Expr.refused_of_parse hparse htooLong
    cases htext with
    | @typed input hmem hpiece =>
      cases hrefused with
      | reading digits hrun hunread =>
        -- the number was typed, digit for digit
        have hle := hshort input hmem digits (hrun.mono hpiece)
        exact absurd hunread.1 (Nat.not_lt.mpr hle)
      | writing written hwritten hunwritten =>
        -- each modifier could be read, but their sum has more digits
        obtain rfl := hunwritten.1
        exact .modifiers hmem hpiece hwritten hunwritten hparse htooLong
    | short hlength => exact absurd hrefused.length_lt (Nat.not_lt.mpr hlength)
    | sparse hsparse => exact absurd hparse (Expr.parse_ne_error hsparse cause)

theorem error_of_about (hshort : ShortRuns (env.stdin :: texts)) {error : Error}
    (h : error.About (Typed (env.stdin :: texts)) (Traced (env.stdin :: texts))) :
    error.isQuery = true ∨ BreaksOff texts env error := by
  cases h with
  | @line sep line fault hline hsplit =>
    cases fault with
    -- lines that were typed are on one line, and the query is set apart below
    | newline => exact absurd hsplit (Line.split_ne_newline hline.unbroken)
    | unclosedString | unbalanced => exact .inl rfl
  | @options clause cause hclause hparse =>
    cases cause with
    | tooLong refused =>
      obtain ⟨digits, hrun, hunread⟩ := Options.unread_of_parse hparse
      obtain ⟨input, hmem, hpiece⟩ := hclause.piece
      have hle := hshort input hmem digits (hrun.mono hpiece)
      exact absurd hunread.1 (Nat.not_lt.mpr hle)
    | badSyntax | tooLarge | duplicate | incompatible => exact .inl rfl
  | expression htext hparse => exact error_of_parse hshort htext hparse
  | exhausted => exact .inr .exhausted

/-- **What goes wrong in a run.** The query may hold a line feed; it is refused then, unless
standard input went wrong before. -/
theorem error_of_perform (hstarts : Starts texts env args s)
    (hshort : ShortRuns (env.stdin :: texts)) :
    ∀ failure ∈ (perform args env s).failure,
      failure.error.isQuery = true ∨ BreaksOff texts env failure.error := by
  have hP := inherited_traced (env.stdin :: texts)
  have hs : s.Holds (Traced (env.stdin :: texts)) := Session.holds_of_empty hstarts.pending
  have hlines : ∀ line ∈ args.linesIn env, Typed (env.stdin :: texts) line :=
    typed_linesIn List.mem_cons_self
  intro failure hfailure
  by_cases hnewline : '\n' ∈ args.query.getD []
  · rw [perform_of_newline hnewline] at hfailure
    have hfed := confined_feed hP args.evalStdin hlines hs
    cases hfirst : (feed args.evalStdin (args.linesIn env) s).failure with
    | some first =>
      rw [Run.andThen_of_failure hfirst] at hfailure
      exact error_of_about hshort (hfed.error failure hfailure)
    | none =>
      rw [Run.andThen_of_ok hfirst] at hfailure
      cases hfailure
      exact .inr (.newline hstarts.parse hnewline)
  · have hquery : Typed (env.stdin :: texts) (args.query.getD []) := by
      refine ⟨hnewline, ?_⟩
      cases hgiven : args.query with
      | none => exact ⟨env.stdin, List.mem_cons_self, List.nil_infix⟩
      | some query =>
        have hmem := Arguments.query_of_parse hstarts.parse query hgiven
        exact ⟨query, List.mem_cons_of_mem _ hmem, List.infix_rfl⟩
    exact error_of_about hshort ((confined_perform hP hlines hquery hs).error failure hfailure)

end

/-! ## Reports -/

/-- The reports of runs that end by themselves. -/
inductive Report.Settled (report : Report) : Prop
  /-- It went well. -/
  | ok (exit : report.exit = some 0) (stderr : report.stderr = []) (raised : report.raised = none)
  /-- The query is wrong. -/
  | query (error : Error) (isQuery : error.isQuery = true) (exit : report.exit = some 1)
      (stderr : report.stderr = ["error: " ++ error.message]) (raised : report.raised = none)
  /-- The arguments are wrong, or the seed of the environment. Nothing is printed then. -/
  | usage (error : UsageError) (exit : report.exit = some 2) (stdout : report.stdout = [])
      (stderr : report.stderr = ["usage: " ++ error.message]) (raised : report.raised = none)

/-- The report of a run that an error broke off. -/
structure Report.BrokenOff (report : Report) (error : Error) : Prop where
  exit : report.exit = none
  stderr : report.stderr = []
  raised : report.raised = some error

theorem settled_of_isQuery {report : Report} (hraised : report.raised = none) {error : Error}
    (h : error.isQuery = true) : (conclude report (some error)).Settled := by
  rw [conclude, if_pos h]
  exact .query error h rfl rfl hraised

theorem brokenOff_of_not_isQuery {report : Report} (hstderr : report.stderr = []) {error : Error}
    (h : error.isQuery = false) : (conclude report (some error)).BrokenOff error := by
  rw [conclude, h]
  exact ⟨rfl, hstderr, rfl⟩

/-- **How a command line ends**, where no run of digits that was typed is too long to be read: it
settles, or it is broken off by one of three errors. One of these is certain: a query with a
line feed breaks the run off once standard input is taken in. -/
theorem run_settles (texts : List (List Char)) (env : Environment)
    (hshort : ShortRuns (env.stdin :: texts)) :
    ((run texts env).Settled ∨
      ∃ error, BreaksOff texts env error ∧ (run texts env).BrokenOff error) ∧
    ∀ args s, Starts texts env args s → '\n' ∈ args.query.getD [] →
      (feed args.evalStdin (args.linesIn env) s).failure = none →
        (run texts env).BrokenOff (.line .newline) := by
  constructor
  · rcases run_cases texts env with ⟨-, hrun⟩ | ⟨error, hrun⟩ | ⟨faults, hrun⟩ |
      ⟨args, s, hstarts, hrun⟩
    · rw [hrun]
      exact .inl (.ok rfl rfl rfl)
    · rw [hrun]
      exact .inl (.usage error rfl rfl rfl rfl)
    · rw [hrun]
      exact .inl (settled_of_isQuery rfl rfl)
    · rw [hrun, reportOf]
      cases hfailure : (perform args env s).failure with
      | none => exact .inl (.ok rfl rfl rfl)
      | some failure =>
        rw [Option.map_some]
        cases hquery : failure.error.isQuery with
        | true => exact .inl (settled_of_isQuery rfl hquery)
        | false =>
          have hbreaks := (error_of_perform hstarts hshort failure hfailure).resolve_left
            (by simp [hquery])
          exact .inr ⟨failure.error, hbreaks, brokenOff_of_not_isQuery rfl hquery⟩
  · intro args s hstarts hnewline hfed
    rw [run_of_starts hstarts, reportOf, perform_of_newline hnewline, Run.andThen_of_ok hfed]
    exact brokenOff_of_not_isQuery rfl rfl

/-- Dice without sides are an error of the query. Two letters on two lines are none. -/
theorem run_settles_dice_without_sides :
    let env : Environment := {}
    let dice := [['1', 'd', '0']]
    let letters := [['a', '\n', 'b']]
    (ShortRuns (env.stdin :: dice) ∧ (run dice env).exit = some 1 ∧ (run dice env).Settled) ∧
      ShortRuns (env.stdin :: letters) ∧ (run letters env).BrokenOff (.line .newline) := by
  intro env dice letters
  have hdice : ShortRuns (env.stdin :: dice) := shortRuns_of_length_le (by decide)
  have hletters : ShortRuns (env.stdin :: letters) := shortRuns_of_length_le (by decide)
  have hexit : (run dice env).exit = some 1 := by decide +kernel
  have hsettled : (run dice env).Settled := by
    rcases (run_settles dice env hdice).1 with hsettled | ⟨error, -, hbroken⟩
    · exact hsettled
    · rw [hbroken.exit] at hexit
      cases hexit
  have hstarts : Starts letters env { query := some ['a', '\n', 'b'] }
      { source := .ofSeed 0 } := by
    refine ⟨by decide +kernel, 0, rfl, ?_⟩
    simp [Session.setSeparators, Separators.replace_nothing, Except.map]
  exact ⟨⟨hdice, hexit, hsettled⟩, hletters,
    (run_settles letters env hletters).2 _ _ hstarts (by decide) rfl⟩

/-- A query of two lines does not end a run as a wrong query does: there is no status, and
nothing is said. -/
theorem broken_off_by_newline :
    let letters := [['a', '\n', 'b']]
    ShortRuns ([] :: letters) ∧ Arguments.parse letters ≠ .error .help ∧
      (run letters {}).exit = none ∧ (run letters {}).stderr = [] ∧
      (run letters {}).raised = some (.line .newline) ∧ ¬ (run letters {}).Settled := by
  intro letters
  have hexit : (run letters {}).exit = none := by decide +kernel
  refine ⟨shortRuns_of_length_le (by decide), by decide +kernel, hexit, by decide +kernel,
    by decide +kernel, ?_⟩
  intro hsettled
  cases hsettled with
  | ok exit => simp [hexit] at exit
  | query error isQuery exit => simp [hexit] at exit
  | usage error exit => simp [hexit] at exit

end Lots.CommandLine
