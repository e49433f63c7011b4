import Lots.Proofs.Line.Derivation
import Lots.Proofs.Numeral.Refusal
import Lots.Proofs.Session.Failure
import Lots.Source.Script

/-!
# Lots — what a line may fail of

A line without a line feed fails because the query is wrong, and then nothing is left
pending. Two things are not the query's: a source that runs dry, and a number that is refused
for its digits. Both leave nothing pending either, with one exception: where the amount of an
options clause is refused, the pending entries stay.

* **`Accounted`** — the ways to fail, each with what the session keeps.
* **`accounted_runParts`** — every failure on parts of a line is one of them.
* **`failure_accounted`** — so are those of lines and of a flush, and the parsers raise nothing
  else.
* **`runLine_long_amount`** — the exception, for every session and every such amount.
-/

namespace Lots

/-! ## Faults of a line -/

namespace Line

variable {sep : Separators} {k : Cursor}

theorem Cursor.step_ne_newline {c : Char} : k.step sep c ≠ .error .newline := by
  unfold step stepSlice stepClosing
  repeat' split
  all_goals nofun

theorem Cursor.read_ne_newline {s : List Char} : (k.read sep s).2 ≠ .error .newline := by
  induction s generalizing k with
  | nil => nofun
  | cons c rest ih =>
    rw [read]
    split
    · next fault hstep =>
      intro h
      cases h
      exact step_ne_newline hstep
    · exact ih

theorem Cursor.finish_ne_newline : k.finish.fault ≠ some .newline := by
  unfold finish
  split <;> nofun

/-- Only a line feed is taken for one. -/
theorem split_ne_newline {line : List Char} (hline : '\n' ∉ line) :
    (split sep line).fault ≠ some .newline := by
  rw [split_eq_splitFrom hline, splitFrom]
  split
  · next parts fault hread =>
    intro h
    cases h
    exact Cursor.read_ne_newline (congrArg Prod.snd hread)
  · exact Cursor.finish_ne_newline

end Line

/-! ## Errors of a statement -/

section

variable {σ : Type} [Source σ]

theorem parse_of_classify {evaluates : Bool} {known : Classified} {entry : Entry}
    {cause : Expr.Error} (h : classify evaluates known entry = .error cause) :
    Expr.parse entry.text = .error cause := by
  unfold classify at h
  split at h
  · split at h
    · cases h
    · cases hparse : Expr.parse entry.text with
      | ok expr => simp [hparse, Except.map] at h
      | error cause =>
        simp only [hparse, Except.map] at h
        cases h
        rfl
  · cases h

theorem error_of_evaluatePicks {evaluates : Bool} {known : Classified} {samples : Array Sample}
    {picks : List Entry} {s s' : σ} {error : Error}
    (h : evaluatePicks evaluates known samples picks s = (.error error, s')) :
    error = .exhausted ∨
      ∃ entry ∈ picks, ∃ cause, Expr.parse entry.text = .error cause ∧
        error = .expression cause := by
  induction picks generalizing known samples s with
  | nil => cases h
  | cons entry rest ih =>
    rw [evaluatePicks] at h
    cases hclassify : classify evaluates known entry with
    | error cause =>
      simp only [hclassify] at h
      cases h
      exact .inr ⟨entry, List.mem_cons_self, cause, parse_of_classify hclassify, rfl⟩
    | ok classified =>
      obtain ⟨expr, known'⟩ := classified
      cases hevaluate : expr.evaluate s with
      | none =>
        simp only [hclassify, hevaluate] at h
        cases h
        exact .inl rfl
      | some drawn =>
        obtain ⟨sample, s''⟩ := drawn
        simp only [hclassify, hevaluate] at h
        rcases ih h with hexhausted | ⟨picked, hmem, hparse⟩
        · exact .inl hexhausted
        · exact .inr ⟨picked, List.mem_cons_of_mem _ hmem, hparse⟩

/-- A statement fails at an entry that is refused, or without draws. -/
theorem Statement.error_of_run {statement : Statement} {s s' : σ} {error : Error}
    (h : statement.run s = (.error error, s')) :
    error = .exhausted ∨
      ∃ entry ∈ statement.entries, ∃ cause, Expr.parse entry.text = .error cause ∧
        error = .expression cause := by
  unfold Statement.run at h
  cases hpicks : statement.picks s with
  | none =>
    simp only [hpicks] at h
    cases h
    exact .inl rfl
  | some picked =>
    obtain ⟨picks, s''⟩ := picked
    simp only [hpicks] at h
    rcases error_of_evaluatePicks h with hexhausted | ⟨entry, hmem, hparse⟩
    · exact .inl hexhausted
    · exact .inr ⟨entry, Selection.mem_of_mem_select hpicks entry hmem, hparse⟩

end

namespace Session

variable {σ : Type} [Source σ]

/-- The ways to fail on parts of a line, and what is pending afterwards. -/
inductive Accounted (parts : List Line.Part) (failure : Failure) (s : Session σ) : Prop
  /-- The query is wrong. -/
  | query (isQuery : failure.error.isQuery = true) (cleared : s.pending = #[])
  /-- The source ran dry. -/
  | exhausted (error : failure.error = .exhausted) (cleared : s.pending = #[])
  /-- An entry of the statement holds a number that is refused. -/
  | expression (statement : Statement) (entry : Entry) (cause : Expr.Error)
      (refused : Numeral.TooLong) (ran : failure.statement = some statement)
      (mem : entry ∈ statement.entries) (error : failure.error = .expression cause)
      (tooLong : cause.tooLong? = some refused) (holds : Refused entry.text refused)
      (cleared : s.pending = #[])
  /-- The amount of an options clause is refused. Nothing that was pending leaves. -/
  | amount (clause : List Char) (refused : Numeral.TooLong) (mem : .options clause ∈ parts)
      (error : failure.error = .options (.tooLong refused)) (holds : Refused clause refused)
      (kept : failure.entries = [])

omit [Source σ] in
theorem Accounted.mono {parts all : List Line.Part} {failure : Failure} {s : Session σ}
    (h : Accounted parts failure s) (hparts : parts ⊆ all) : Accounted all failure s := by
  cases h with
  | query isQuery cleared => exact .query isQuery cleared
  | exhausted error cleared => exact .exhausted error cleared
  | expression statement entry cause refused ran mem error tooLong holds cleared =>
    exact .expression statement entry cause refused ran mem error tooLong holds cleared
  | amount clause refused mem error holds kept =>
    exact .amount clause refused (hparts mem) error holds kept

omit [Source σ] in
/-- An error outside any statement is the query's, or that of a refused amount. -/
theorem accounted_fail {s : Session σ} {error : Error} {failure : Failure}
    {parts : List Line.Part} (h : (s.fail error).failure = some failure)
    (herror : error.isQuery = true ∨ ∃ clause refused, .options clause ∈ parts ∧
      error = .options (.tooLong refused) ∧ Refused clause refused) :
    Accounted parts failure (s.fail error).state := by
  unfold fail at h ⊢
  split at h
  · next hquery =>
    cases h
    rw [if_pos hquery]
    exact .query hquery rfl
  · next hnot =>
    cases h
    obtain ⟨clause, refused, hmem, herror, hrefused⟩ := herror.resolve_left hnot
    rw [if_neg hnot]
    exact .amount clause refused hmem herror hrefused rfl

theorem accounted_endStatement {s : Session σ} {options : Options} {failure : Failure}
    {parts : List Line.Part} (h : (s.endStatement options).failure = some failure) :
    Accounted parts failure (s.endStatement options).state := by
  cases hrun : (s.statement options).run s.source with
  | mk outcome source =>
    cases outcome with
    | ok samples =>
      rw [endStatement_of_ok hrun] at h
      cases h
    | error error =>
      rw [endStatement_of_error hrun] at h ⊢
      cases h
      rcases Statement.error_of_run hrun with hexhausted | ⟨entry, hmem, cause, hparse, herror⟩
      · exact .exhausted hexhausted rfl
      · cases htooLong : cause.tooLong? with
        | none =>
          refine .query ?_ rfl
          simp [herror, Error.isQuery, htooLong]
        | some refused =>
          exact .expression _ entry cause refused rfl hmem herror htooLong
            (Expr.refused_of_parse hparse htooLong) rfl

/-- **Every failure is accounted for.** Induction over the parts: each of them fails itself,
or hands a session on to the rest. -/
theorem accounted_runParts {fault : Option Line.Fault} (hfault : fault ≠ some .newline)
    (limit : Option Nat) (options : Option Options) (parts : List Line.Part) (s : Session σ)
    (failure : Failure) :
    (runParts fault limit options parts s).failure = some failure →
      Accounted parts failure (runParts fault limit options parts s).state := by
  fun_induction runParts fault limit options parts s with
  | case1 =>
    intro h
    cases h
  | case2 limit options s hlimit text rest ih =>
    exact fun h => (ih h).mono (List.subset_cons_self _ _)
  | case3 limit options s hlimit text rest cause hparse =>
    intro h
    refine accounted_fail h ?_
    cases cause with
    | tooLong refused =>
      exact .inr ⟨text, refused, List.mem_cons_self, rfl, Options.refused_of_parse hparse⟩
    | badSyntax | tooLarge | duplicate | incompatible => exact .inl rfl
  | case4 limit options s hlimit text rest parsed hparse ih =>
    exact fun h => (ih h).mono (List.subset_cons_self _ _)
  | case5 limit options s hlimit rest ih =>
    intro h
    cases hfirst : (s.endStatement (options.getD {})).failure with
    | some first =>
      rw [Run.andThen_of_failure hfirst] at h ⊢
      exact accounted_endStatement h
    | none =>
      rw [Run.andThen_of_ok hfirst] at h ⊢
      exact (ih _ h).mono (List.subset_cons_self _ _)
  | case6 limit options s hlimit fault hsome =>
    intro h
    refine accounted_fail h (.inl ?_)
    cases fault with
    | newline => exact absurd hsome hfault
    | unclosedString | unbalanced => rfl
  | case7 => exact accounted_endStatement
  | case8 =>
    intro h
    cases h

theorem accounted_flush {s : Session σ} {failure : Failure} (h : s.flush.failure = some failure) :
    Accounted [] failure s.flush.state := by
  unfold flush at h ⊢
  split at h
  · cases h
  · next hsome =>
    rw [if_neg hsome]
    exact accounted_endStatement h

/-- **What goes wrong is the query**, and then nothing is left pending, unless the source
runs dry or a number is refused. So it is with the parsers of options and of expressions, which
refuse numbers only in texts that are longer than the limit, with lines and with a flush. -/
theorem failure_accounted (s : Session σ) :
    (∀ text cause, Options.parse text = .error cause →
      (Error.options cause).isQuery = true ∨
        ∃ refused, cause = .tooLong refused ∧ Refused text refused ∧
          Numeral.digitLimit < text.length) ∧
    (∀ text cause, Expr.parse text = .error cause →
      (Error.expression cause).isQuery = true ∨
        ∃ refused, cause.tooLong? = some refused ∧ Refused text refused ∧
          Numeral.digitLimit < text.length) ∧
    (∀ line failure, '\n' ∉ line → (s.runLine line).failure = some failure →
      Accounted (Line.split s.separators line).parts failure (s.runLine line).state) ∧
    (∀ failure, s.flush.failure = some failure → Accounted [] failure s.flush.state) := by
  refine ⟨?_, ?_, ?_, ?_⟩
  · intro text cause hparse
    cases cause with
    | tooLong refused =>
      have hrefused := Options.refused_of_parse hparse
      exact .inr ⟨refused, rfl, hrefused, hrefused.length_lt⟩
    | badSyntax | tooLarge | duplicate | incompatible => exact .inl rfl
  · intro text cause hparse
    cases htooLong : cause.tooLong? with
    | none => exact .inl (by simp [Error.isQuery, htooLong])
    | some refused =>
      have hrefused := Expr.refused_of_parse hparse htooLong
      exact .inr ⟨refused, rfl, hrefused, hrefused.length_lt⟩
  · intro line failure hline hfailure
    exact accounted_runParts (Line.split_ne_newline hline) none none _ s failure hfailure
  · intro failure hfailure
    exact accounted_flush hfailure

/-- An interval without numbers fails at the end of its statement and at a flush, as doubled
flags do where they are read. -/
theorem accounted_of_empty_interval :
    let flags := ['r', 'r']
    let interval := ['3', '.', '.', '1']
    let line := interval ++ [';']
    let s : Session Script := fresh {} ⟨[]⟩
    let t := s.add interval
    (Options.parse flags = .error (.duplicate [.repeating]) ∧
      (Error.options (.duplicate [.repeating])).isQuery = true) ∧
    (Expr.parse interval = .error (.interval .empty) ∧
      (Error.expression (.interval .empty)).isQuery = true) ∧
    (∃ failure, (s.runLine line).failure = some failure ∧
      Accounted (Line.split s.separators line).parts failure (s.runLine line).state) ∧
    (∃ failure, t.flush.failure = some failure ∧ Accounted [] failure t.flush.state) := by
  intro flags interval line s t
  have hoptions : Options.parse flags = .error (.duplicate [.repeating]) := rfl
  have hexpr : Expr.parse interval = .error (.interval .empty) := rfl
  have hline : (s.runLine line).failure.isSome = true := by decide +kernel
  have hflush : t.flush.failure.isSome = true := by decide +kernel
  refine ⟨⟨hoptions, ?_⟩, ⟨hexpr, ?_⟩, ?_, ?_⟩
  · -- neither text is refused for a number of digits
    refine ((failure_accounted s).1 flags _ hoptions).resolve_right ?_
    rintro ⟨refused, hrefused, -⟩
    cases hrefused
  · refine ((failure_accounted s).2.1 interval _ hexpr).resolve_right ?_
    rintro ⟨refused, hrefused, -⟩
    cases hrefused
  · obtain ⟨failure, hfailure⟩ := Option.isSome_iff_exists.mp hline
    exact ⟨failure, hfailure, (failure_accounted s).2.2.1 line failure (by decide) hfailure⟩
  · obtain ⟨failure, hfailure⟩ := Option.isSome_iff_exists.mp hflush
    exact ⟨failure, hfailure, (failure_accounted t).2.2.2 failure hfailure⟩

/-! ## Amounts that are refused -/

/-- An options clause with a refused amount fails and leaves the session as it was. -/
theorem runLine_long_amount (s : Session σ) {digits : List Char}
    (hdigits : ∀ c ∈ digits, c.isDigit = true) (hzero : '0' ∉ digits.head?)
    (hlong : Numeral.digitLimit < digits.length) (hstmt : s.separators.stmt ∉ digits) :
    s.runLine (s.separators.options :: digits) =
      ⟨[], some { error := .options (.tooLong (.reading digits.length)) }, s⟩ := by
  have hline : '\n' ∉ digits := fun hmem => absurd (hdigits _ hmem) (by decide)
  have hsplit := Line.split_clause hline hstmt
  have hparse : Options.parse (Text.strip digits) =
      .error (.tooLong (.reading digits.length)) := by
    rw [← Options.parse_long_amount hdigits hzero hlong]
    simp only [Options.parse, Text.strip_strip]
  have hlimit : (none : Option Nat) ≠ some 0 := (Option.some_ne_none 0).symm
  rw [runLine, runUpTo, hsplit]
  exact runParts_options_of_error hlimit hparse

/-- A pending entry outlives an amount of 4301 digits, and no error of the query is named. -/
theorem pending_of_long_amount :
    let digits := List.replicate 4301 '1'
    let line := '/' :: digits
    let s := (fresh {} (⟨[]⟩ : Script)).after [.add ['x']]
    '\n' ∉ line ∧
      ∃ failure, (s.runLine line).failure = some failure ∧ failure.error.isQuery = false ∧
        (s.runLine line).state.pending = #[⟨0, ['x']⟩] := by
  intro digits line s
  have hdigits : ∀ c ∈ digits, c = '1' := fun c hc => List.eq_of_mem_replicate hc
  have hrun : s.runLine line =
      ⟨[], some { error := .options (.tooLong (.reading digits.length)) }, s⟩ := by
    apply runLine_long_amount s
    · intro c hc
      rw [hdigits c hc]
      rfl
    · intro hzero
      exact absurd (hdigits _ (List.mem_of_mem_head? hzero)) (by decide)
    · rw [List.length_replicate]
      decide
    · intro hstmt
      exact absurd (hdigits _ hstmt) (by decide)
  rw [hrun]
  refine ⟨?_, _, rfl, rfl, rfl⟩
  intro hmem
  rcases List.mem_cons.mp hmem with hslash | hdigit
  · cases hslash
  · exact absurd (hdigits _ hdigit) (by decide)

end Session

end Lots
