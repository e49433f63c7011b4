import Lots.Proofs.Line.Derivation
import Lots.Proofs.Session.Pushing
import Lots.Proofs.Session.Renumbering
import Lots.Source.Script

/-!
# Lots — listing in between

Where nothing is pending, texts may be added and listed without a trace: the list gives them
out as they are, and whatever is asked of the session afterwards gives what it would have given
anyway. Listing draws nothing, however many entries there are, and the ids that the texts took
are not observed.

* **`observed_adds`** — texts that are added give nothing out and draw nothing.
* **`runLine_clause`**, **`runLine_list`** — an options clause ends the statement of the pending
  entries with what it asks for, such as the list.
* **`runs_insert_listing`** — texts that are added and listed between any two operations.
-/

namespace Lots.Session

variable {σ : Type} [Source σ]

/-! ## Operations in a row -/

theorem after_append (s : Session σ) (ops more : List Operation) :
    s.after (ops ++ more) = (s.after ops).after more :=
  List.foldl_append

theorem runs_append (s : Session σ) (ops more : List Operation) :
    s.runs (ops ++ more) = s.runs ops ++ (s.after ops).runs more := by
  induction ops generalizing s with
  | nil => rfl
  | cons op rest ih =>
    rw [List.cons_append, runs, runs, ih (s.perform op).state, List.cons_append, after_cons]

theorem length_runs (s : Session σ) (ops : List Operation) : (s.runs ops).length = ops.length := by
  induction ops generalizing s with
  | nil => rfl
  | cons op rest ih => rw [runs, List.length_cons, List.length_cons, ih (s.perform op).state]

/-! ## Adding texts -/

theorem after_adds (s : Session σ) (texts : List (List Char)) :
    s.after (texts.map Operation.add) = texts.foldl add s :=
  List.foldl_map

omit [Source σ] in
theorem foldl_add_source (s : Session σ) (texts : List (List Char)) :
    (texts.foldl add s).source = s.source := by
  induction texts generalizing s with
  | nil => rfl
  | cons text rest ih => rw [List.foldl_cons, ih (s.add text), add_source]

omit [Source σ] in
theorem foldl_add_separators (s : Session σ) (texts : List (List Char)) :
    (texts.foldl add s).separators = s.separators := by
  induction texts generalizing s with
  | nil => rfl
  | cons text rest ih => rw [List.foldl_cons, ih (s.add text), add_separators]

/-- Nothing is given out, and no separator or draw changes. -/
structure Observation.Quiet (s : Session σ) (seen : Observation σ) : Prop where
  outputs : seen.outputs = []
  error : seen.error = none
  separators : seen.separators = s.separators
  source : seen.source = s.source

theorem observed_adds (s : Session σ) (texts : List (List Char)) :
    ∀ seen ∈ (s.runs (texts.map Operation.add)).map Run.observed, seen.Quiet s := by
  induction texts generalizing s with
  | nil => exact List.forall_mem_nil _
  | cons text rest ih =>
    intro seen hseen
    rcases List.mem_cons.mp hseen with rfl | hrest
    · exact ⟨rfl, rfl, add_separators s text, add_source s text⟩
    · have hquiet := ih (s.add text) seen hrest
      refine ⟨hquiet.outputs, hquiet.error, ?_, ?_⟩
      · rw [hquiet.separators, add_separators]
      · rw [hquiet.source, add_source]

/-! ## Listing -/

/-- A clause at the start of a line ends the statement of the pending entries with its options,
unless it holds the statement separator. -/
theorem runLine_clause (s : Session σ) {clause : List Char} {options : Options}
    (hline : '\n' ∉ clause) (hstmt : s.separators.stmt ∉ clause)
    (hparse : Options.parse (Text.strip clause) = .ok options) :
    s.runLine (s.separators.options :: clause) = s.endStatement options := by
  have hlimit : (none : Option Nat) ≠ some 0 := nofun
  rw [runLine, runUpTo, Line.split_clause hline hstmt, runParts_options_of_ok hlimit hparse]
  exact runParts_nil hlimit

/-- The name of the list is read as its options, unless it holds the statement separator. -/
theorem runLine_list (s : Session σ) (h : s.separators.stmt ∉ "list".toList) :
    s.runLine (s.separators.options :: "list".toList) = s.endStatement Options.list :=
  s.runLine_clause (by decide) h rfl

/-- What is seen of listing texts that were added where nothing was pending. -/
theorem observed_list {s : Session σ} (hs : s.pending = #[]) (texts : List (List Char)) :
    ((texts.foldl add s).endStatement Options.list).observed =
      { outputs := [((texts.map Text.strip).filter (!·.isEmpty)).map Sample.text]
        error := none
        separators := s.separators
        texts := []
        source := s.source } := by
  have htexts : (texts.foldl add s).pending.toList.map Entry.text =
      (texts.map Text.strip).filter (!·.isEmpty) := by
    simpa [hs] using texts_foldl_add s texts
  have hsamples : ((texts.foldl add s).pending.toList.map fun e => Sample.text e.text) =
      ((texts.map Text.strip).filter (!·.isEmpty)).map Sample.text := by
    rw [← htexts, List.map_map]
    rfl
  rw [endStatement_list, hsamples, Run.observed]
  simp only [foldl_add_separators, foldl_add_source]
  rfl

/-- **Listing does not interfere.** Texts are added and listed at a point where nothing is
pending, unless the statement separator is in the name of the list. The additions give nothing
out, and the list gives the texts that are not blank, stripped and in order, and draws nothing.
All other observations are those that would have been made anyway. -/
theorem runs_insert_listing (separators : Separators) (source : σ)
    (before after : List Operation) (texts : List (List Char)) :
    let start := fresh separators source
    let s := start.after before
    let listing := texts.map Operation.add ++ [.line (s.separators.options :: "list".toList)]
    let plain := (start.runs (before ++ after)).map Run.observed
    let listed := (start.runs (before ++ (listing ++ after))).map Run.observed
    s.pending = #[] → s.separators.stmt ∉ "list".toList →
      ∃ added list, added.length = texts.length ∧ (∀ seen ∈ added, seen.Quiet s) ∧
        list = {
          outputs := [((texts.map Text.strip).filter (!·.isEmpty)).map Sample.text]
          error := none
          separators := s.separators
          texts := []
          source := s.source } ∧
        listed = plain.take before.length ++ (added ++ [list]) ++ plain.drop before.length := by
  intro start s listing plain listed hpending hstmt
  let t := texts.foldl add s
  let run := t.endStatement Options.list
  have hadds : s.after (texts.map Operation.add) = t := after_adds s texts
  have hline : t.runLine (s.separators.options :: "list".toList) = run := by
    rw [← foldl_add_separators s texts] at hstmt ⊢
    exact runLine_list t hstmt
  have hlisting : s.runs listing = s.runs (texts.map Operation.add) ++ [run] := by
    rw [runs_append, hadds]
    show _ ++ [t.runLine _] = _
    rw [hline]
  have hstate : s.after listing = run.state := by
    rw [after_append, hadds]
    show (t.runLine _).state = _
    rw [hline]
  have hseen : run.observed = _ := observed_list hpending texts
  -- the operations behind the listing find a session without pending entries, as they would have
  have hafter : ((s.after listing).runs after).map Run.observed =
      (s.runs after).map Run.observed := by
    have hsource : run.state.source = s.source := congrArg Observation.source hseen
    have hseparators : run.state.separators = s.separators :=
      congrArg Observation.separators hseen
    have hcleared : run.state.pending = #[] := by
      show (t.endStatement Options.list).state.pending = #[]
      rw [endStatement_list]
    rw [hstate, observed_runs_of_empty hcleared, observed_runs_of_empty hpending, hsource,
      hseparators]
  have hplain : plain = (start.runs before).map Run.observed ++
      (s.runs after).map Run.observed := by
    show (start.runs (before ++ after)).map Run.observed = _
    rw [runs_append, List.map_append]
  have hbefore : ((start.runs before).map Run.observed).length = before.length := by
    rw [List.length_map, length_runs]
  refine ⟨(s.runs (texts.map Operation.add)).map Run.observed, run.observed, ?_,
    observed_adds s texts, hseen, ?_⟩
  · rw [List.length_map, length_runs, List.length_map]
  · rw [hplain, List.take_left' hbefore, List.drop_left' hbefore]
    show (start.runs (before ++ (listing ++ after))).map Run.observed = _
    rw [runs_append, runs_append, hlisting, List.map_append, List.map_append, hafter,
      List.map_append, List.map_singleton, List.append_assoc, List.append_assoc, List.append_assoc]

/-- Three texts, one of them blank and one that no expression is, between two rolls of a die: the
second roll is the one that the script has for it. -/
theorem runs_insert_listing_between_rolls :
    let start : Session Script := fresh {} ⟨[3, 5]⟩
    let roll : List Operation := [.line ['d', '6', ';']]
    let texts := [[' ', 'a', ' '], [], ['(', 'b']]
    let s := start.after roll
    let listing := texts.map Operation.add ++ [.line (s.separators.options :: "list".toList)]
    let plain := (start.runs (roll ++ roll)).map Run.observed
    let listed := (start.runs (roll ++ (listing ++ roll))).map Run.observed
    s.pending = #[] ∧ s.separators.stmt ∉ "list".toList ∧
      ∃ added list, added.length = 3 ∧ (∀ seen ∈ added, seen.Quiet s) ∧
        list.outputs = [[.text ['a'], .text ['(', 'b']]] ∧ list.source = ⟨[5]⟩ ∧
        listed = plain.take 1 ++ (added ++ [list]) ++ plain.drop 1 := by
  intro start roll texts s listing plain listed
  have hpending : s.pending = #[] := by decide +kernel
  have hsource : s.source = ⟨[5]⟩ := by decide +kernel
  have hstmt : s.separators.stmt ∉ "list".toList := by decide +kernel
  obtain ⟨added, list, hlength, hadded, hlist, hlisted⟩ :=
    runs_insert_listing {} (⟨[3, 5]⟩ : Script) roll roll texts hpending hstmt
  refine ⟨hpending, hstmt, added, list, hlength, hadded, ?_, ?_, hlisted⟩
  · rw [hlist]
    rfl
  · rw [hlist, ← hsource]

end Lots.Session
