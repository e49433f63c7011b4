import Lots.Proofs.CommandLine.Output
import Lots.Proofs.CommandLine.Seed
import Lots.Proofs.Session.Listing
import Lots.Proofs.Text.Lines

/-!
# Lots — standard input listed

A query that only asks for the list gives standard input out line by line. Whatever stands in a
line, it is an entry as it is: no separator cuts it, no bracket or quote is missed in it, and no
notation in it is evaluated, also where it is the only line. What is lost is blank: lines, and
the ends of lines. All this is the same for every seed that is read.

* **`InputText`**, in `Lots.Text` — the lines of standard input.
* **`perform_of_listsInput`** — the lines are added, and one statement lists them.
* **`input_listed`** — what is printed, for all arguments that ask for the list.
* **`parse_listingArguments`**, **`parse_of_long_seed`** — which seeds are read.
-/

namespace Lots.CommandLine

open Numeral (digitLimit)
open Session (Run)

/-! ## Arguments that ask for the list -/

/-- The arguments ask to list standard input: the query is an options clause with the name of
the list, lines are entries, and the separators are the usual ones. -/
structure Arguments.ListsInput (args : Arguments) (seed : Int) : Prop where
  query : args.query = some "/ list".toList
  entries : args.evalStdin = false
  separators : ({} : Separators).Merges args.separators {}
  seed : args.seed = some seed

/-- The arguments that ask to list standard input with a seed, in full or values only. -/
def listingArguments (seed : Int) (hideExpr : Bool) : List (List Char) :=
  "/ list".toList :: "--seed".toList :: Numeral.intText seed ::
    (if hideExpr then ["-E".toList] else [])

theorem classifyWords_cons {text : List Char} {rest : List (List Char)} {word : Word}
    {words : List Word} (hne : text ≠ ['-', '-']) (hword : classifyWord text = .ok word)
    (hwords : classifyWords rest = .ok words) :
    classifyWords (text :: rest) = .ok (word :: words) := by
  rw [classifyWords, if_neg hne, hword, hwords]
  rfl

theorem intText_ne_dashes (z : Int) : Numeral.intText z ≠ ['-', '-'] := by
  intro h
  have hdigits := Numeral.digits_text z.natAbs
  rcases intText_cases z with ⟨-, htext⟩ | ⟨-, htext⟩
  · rw [htext] at h
    rw [(List.cons.inj h).2] at hdigits
    cases hdigits '-' List.mem_cons_self
  · rw [← htext, h] at hdigits
    cases hdigits '-' List.mem_cons_self

theorem classifyWords_listingArguments (seed : Int) (hideExpr : Bool) :
    classifyWords (listingArguments seed hideExpr) =
      .ok (.plain "/ list".toList :: .long (.setting .seed) none ::
        .plain (Numeral.intText seed) :: (if hideExpr then [.short .hideExpr none] else [])) := by
  have hflags : classifyWords (if hideExpr then ["-E".toList] else []) =
      .ok (if hideExpr then [.short .hideExpr none] else []) := by
    cases hideExpr <;> rfl
  have hseed := classifyWords_cons (intText_ne_dashes seed) (classifyWord_intText seed) hflags
  exact classifyWords_cons (by decide) rfl (classifyWords_cons (by decide) rfl hseed)

/-- A seed that is not too long is read, and nothing else is asked for. -/
theorem parse_listingArguments {seed : Int} (h : (Numeral.text seed.natAbs).length ≤ digitLimit)
    (hideExpr : Bool) :
    Arguments.parse (listingArguments seed hideExpr) =
      .ok { query := some "/ list".toList, hideExpr, seed := some seed } := by
  have hread : integer? (Numeral.intText seed) = some seed := by
    rw [integer?_intText, if_pos h]
  rw [Arguments.parse, classifyWords_listingArguments]
  cases hideExpr
  all_goals
    simp [Except.mapError, bind, Except.bind, Arguments.consume, Arguments.setValue, hread,
      Arguments.shortFlags, Arguments.setFlags, Arguments.setFlag]

/-- A seed that is too long is refused, with all that was asked for. -/
theorem parse_of_long_seed {seed : Int} (h : digitLimit < (Numeral.text seed.natAbs).length)
    (hideExpr : Bool) :
    Arguments.parse (listingArguments seed hideExpr) =
      .error (.usage (.badSeed (Numeral.intText seed))) := by
  have hread : integer? (Numeral.intText seed) = none := by
    rw [integer?_intText, if_neg (Nat.not_le.mpr h)]
  rw [Arguments.parse, classifyWords_listingArguments]
  simp [Except.mapError, bind, Except.bind, Arguments.consume, Arguments.setValue, hread]

/-! ## Lines as entries -/

/-- Lines that are not blank, each stripped and with a line feed behind it. -/
def listing (lines : List (List Char)) : List Char :=
  (lines.filter (·.any (!Text.isBlank ·))).flatMap fun line => Text.strip line ++ ['\n']

theorem isEmpty_strip (line : List Char) :
    (!(Text.strip line).isEmpty) = line.any (!Text.isBlank ·) := by
  rw [Bool.eq_iff_iff]
  simp [Text.strip_eq_nil_iff]

theorem renderAll_texts (hideExpr : Bool) (texts : List (List Char)) :
    Sample.renderAll hideExpr (texts.map Sample.text) = texts.flatMap (· ++ ['\n']) := by
  have hrender : ∀ text, (Sample.text text).render hideExpr = text := by
    intro text
    cases hideExpr <;> rfl
  simp [Sample.renderAll, List.flatMap_map, hrender]

theorem tidy_dataLines (stdin : List Char) : ∀ line ∈ dataLines stdin, Text.Tidy line := by
  intro line hline
  obtain ⟨hmem, hne⟩ := List.mem_filter.mp hline
  obtain ⟨raw, -, rfl⟩ := List.mem_map.mp hmem
  exact ⟨by simpa using hne, Text.stripped_strip raw⟩

theorem renderAll_dataLines (hideExpr : Bool) (stdin : List Char) :
    Sample.renderAll hideExpr ((dataLines stdin).map Sample.text) =
      listing (Text.inputLines stdin) := by
  rw [renderAll_texts, dataLines, List.filter_map, List.flatMap_map, listing]
  congr 2
  funext line
  exact isEmpty_strip line

section

variable {σ : Type} [Source σ]

theorem feed_entries (lines : List (List Char)) (s : Session σ) :
    feed false lines s = .done (lines.foldl Session.add s) := by
  induction lines generalizing s with
  | nil => rfl
  | cons line rest ih => exact ih (s.add line)

/-- The lines of standard input are added, and one statement gives them out. -/
theorem perform_of_listsInput {args : Arguments} {seed : Int} (h : args.ListsInput seed)
    {env : Environment} (hterminal : env.isTerminal = false) {s : Session σ}
    (hseparators : s.separators = {}) (hpending : s.pending = #[]) :
    (perform args env s).failure = none ∧
      (perform args env s).outputs = [(dataLines env.stdin).map Sample.text] := by
  let t := (dataLines env.stdin).foldl Session.add s
  have hreads : args.readsInput env.isTerminal = true := by
    rw [Arguments.readsInput, hterminal]
    simp
  have ht : t.separators = {} := by
    rw [← hseparators]
    exact Session.foldl_add_separators s _
  have hquery : t.runLine (args.query.getD []) = t.endStatement Options.list := by
    have hline : t.runLine (t.separators.options :: " list".toList) = t.endStatement Options.list :=
      t.runLine_clause (by decide) (by rw [ht]; decide) rfl
    rw [ht] at hline
    rw [h.query]
    exact hline
  have hperform : perform args env s = t.endStatement Options.list := by
    rw [perform, hreads, h.entries, if_pos rfl, feed_entries, Run.done_andThen]
    -- nothing is left that the end of input would end
    show (t.runLine (args.query.getD [])).andThen Session.flush = _
    rw [hquery, Session.endStatement_list, Run.andThen_of_ok rfl]
    rfl
  have hlisted := congrArg Session.Observation.outputs
    (Session.observed_list hpending (dataLines env.stdin))
  rw [Text.filter_strip_of_tidy (tidy_dataLines env.stdin)] at hlisted
  rw [hperform]
  exact ⟨by rw [Session.endStatement_list], hlisted⟩

end

/-! ## What is printed -/

/-- What a run that goes well and prints this hands back. -/
structure Report.Prints (report : Report) (text : List Char) : Prop where
  exit : report.exit = some 0
  stdout : report.stdout = text
  stderr : report.stderr = []
  raised : report.raised = none

theorem prints_of_listsInput {args : Arguments} {seed : Int} (h : args.ListsInput seed)
    {env : Environment} (hterminal : env.isTerminal = false) {s : Session Twister}
    (hseparators : s.separators = {}) (hpending : s.pending = #[]) :
    (reportOf args (perform args env s)).Prints (listing (Text.inputLines env.stdin)) := by
  obtain ⟨hfailure, houtputs⟩ := perform_of_listsInput h hterminal hseparators hpending
  have hstdout := stdout_reportOf args (perform args env s)
  rw [houtputs, List.flatten_singleton, renderAll_dataLines] at hstdout
  refine ⟨?_, hstdout, ?_, ?_⟩
  all_goals
    rw [reportOf, hfailure]
    rfl

theorem starts_of_listsInput {texts : List (List Char)} {args : Arguments} {seed : Int}
    (hparse : Arguments.parse texts = .ok args) (h : args.ListsInput seed) (env : Environment) :
    Starts texts env args { source := .ofSeed seed } := by
  have hreplace : ({ source := .ofSeed seed } : Session Twister).separators.replace
      args.separators = .ok {} := Separators.replace_eq_ok_iff.mpr h.separators
  refine ⟨hparse, seed, by rw [Arguments.seedIn, h.seed], ?_⟩
  rw [Session.setSeparators, hreplace]
  rfl

/-- **Standard input is listed**, line by line, for all arguments that ask for the list. So do
the query, with a seed of not too many digits, and the switch to values only, or without. -/
theorem input_listed (env : Environment) (hterminal : env.isTerminal = false) :
    ∃ lines, (∀ other, Text.InputText other env.stdin ↔ other = lines) ∧
      (∀ texts args seed, Arguments.parse texts = .ok args → args.ListsInput seed →
        (run texts env).Prints (listing lines)) ∧
      ∀ seed hideExpr, (Numeral.text seed.natAbs).length ≤ digitLimit →
        ∃ args, Arguments.parse (listingArguments seed hideExpr) = .ok args ∧
          args.ListsInput seed ∧ args.hideExpr = hideExpr := by
  refine ⟨Text.inputLines env.stdin, ?_, ?_, ?_⟩
  · intro other
    rw [← Text.inputLines_eq_iff]
    exact eq_comm
  · intro texts args seed hparse hlists
    rw [run_of_starts (starts_of_listsInput hparse hlists env)]
    exact prints_of_listsInput hlists hterminal rfl rfl
  · intro seed hideExpr hdigits
    refine ⟨_, parse_listingArguments hdigits hideExpr, ⟨rfl, rfl, ?_, rfl⟩, rfl⟩
    exact ⟨rfl, rfl, rfl⟩

/-- Lines that are no query: a separator, an open bracket behind a quote, dice without sides. The
first line ends with both characters of a break, the last one with the text; one is blank. -/
theorem input_listed_as_it_is :
    let env : Environment := { stdin := " a; b\r\n\t\n\"([x\r\rd0 ".toList }
    env.isTerminal = false ∧ (Numeral.text (-7 : Int).natAbs).length ≤ digitLimit ∧
      Text.InputText [" a; b".toList, ['\t'], "\"([x".toList, [], "d0 ".toList] env.stdin ∧
      (run (listingArguments (-7) false) env).Prints "a; b\n\"([x\nd0\n".toList := by
  intro env
  have hdigits : (Numeral.text (-7 : Int).natAbs).length ≤ digitLimit := by decide
  obtain ⟨lines, hlines, hprints, harguments⟩ := input_listed env rfl
  obtain ⟨args, hparse, hlists, -⟩ := harguments (-7) false hdigits
  have htext : Text.InputText [" a; b".toList, ['\t'], "\"([x".toList, [], "d0 ".toList] env.stdin :=
    Text.inputLines_eq_iff.mp (by decide)
  have hlisting : listing lines = "a; b\n\"([x\nd0\n".toList := by
    rw [← (hlines _).mp htext]
    decide
  refine ⟨rfl, hdigits, htext, ?_⟩
  rw [← hlisting]
  exact hprints _ args (-7) hparse hlists

/-- The least seed with too many digits is refused, and standard input is not listed. -/
theorem not_listed_of_long_seed :
    let env : Environment := { stdin := ['a', '\n'] }
    let seed : Int := (10 ^ digitLimit : Nat)
    Text.InputText [['a']] env.stdin ∧ listing [['a']] = ['a', '\n'] ∧
      (run (listingArguments seed false) env).exit = some 2 ∧
      (run (listingArguments seed false) env).stdout = [] ∧
      ¬ (run (listingArguments seed false) env).Prints (listing [['a']]) := by
  intro env seed
  have hlong : digitLimit < (Numeral.text seed.natAbs).length := by
    rw [Int.natAbs_natCast]
    exact Numeral.lt_length_text_pow
  have hrun : run (listingArguments seed false) env =
      refuse (.badSeed (Numeral.intText seed)) := by
    rw [run, parse_of_long_seed hlong]
  have htext : Text.InputText [['a']] env.stdin := Text.inputLines_eq_iff.mp rfl
  rw [hrun]
  refine ⟨htext, rfl, rfl, rfl, ?_⟩
  intro hprints
  cases hprints.exit

end Lots.CommandLine
