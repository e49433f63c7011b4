import Lots.Proofs.Statement.Sampling

/-!
# Lots — statements without a memory

Within a statement an entry is classified once. What is remembered is found by ids, and in every
session that can be reached an id stands for one entry, so nobody can tell: a statement ends in all
respects as if each of its picks were classified anew.

* **`Statement.runAnew`**, **`Session.endStatementBy`** — ending a statement with the memory left
  out; nothing else about it is changed.
* **`Evaluated`** — picks that are evaluated, each by draws of its own.
* **`EndsIn`** — how that may end: with a sample for each pick, at the first pick that is refused,
  or with the draws used up.
* **`Statement.run_unpicked`** — texts of entries that are not picked do not matter.
* **`Session.endStatement_anew`** — all this of every session that can be reached.
-/

namespace Lots

open Selection

variable {σ : Type} [Source σ]

/-! ## Picks one after the other -/

/-- All of the picks were evaluated, from one state of the source to another; each of them gave
the sample that its meaning draws where the picks before it have left the source. -/
inductive Evaluated (evaluates : Bool) : List Entry → σ → List Sample → σ → Prop where
  | nil {s : σ} : Evaluated evaluates [] s [] s
  | cons {entry : Entry} {rest : List Entry} {expr : Expr} {sample : Sample}
      {samples : List Sample} {s t u : σ} (hexpr : entry.expr evaluates = .ok expr)
      (hsample : expr.evaluate s = some (sample, t)) (hrest : Evaluated evaluates rest t samples u) :
      Evaluated evaluates (entry :: rest) s (sample :: samples) u

/-- How the evaluation of picks ends. -/
inductive EndsIn (evaluates : Bool) (picks : List Entry) (s : σ) :
    Except Error (List Sample) × σ → Prop where
  | all {samples : List Sample} {s' : σ} (h : Evaluated evaluates picks s samples s') :
      EndsIn evaluates picks s (.ok samples, s')
  /-- A pick is refused, after the draws of those before it. -/
  | refused {before after : List Entry} {entry : Entry} {samples : List Sample}
      {cause : Expr.Error} {s' : σ} (hpicks : picks = before ++ entry :: after)
      (h : Evaluated evaluates before s samples s')
      (hrefused : entry.expr evaluates = .error cause) :
      EndsIn evaluates picks s (.error (.expression cause), s')
  /-- There are no draws left for a pick. -/
  | exhausted {before after : List Entry} {entry : Entry} {expr : Expr} {samples : List Sample}
      {s' : σ} (hpicks : picks = before ++ entry :: after)
      (h : Evaluated evaluates before s samples s') (hexpr : entry.expr evaluates = .ok expr)
      (hnone : expr.evaluate s' = none) :
      EndsIn evaluates picks s (.error .exhausted, s')

/-- One more pick in front. -/
theorem EndsIn.cons {evaluates : Bool} {entry : Entry} {rest : List Entry} {expr : Expr}
    {sample : Sample} {s t u : σ} {result : Except Error (List Sample)}
    (hexpr : entry.expr evaluates = .ok expr) (hsample : expr.evaluate s = some (sample, t))
    (h : EndsIn evaluates rest t (result, u)) :
    EndsIn evaluates (entry :: rest) s (result.map (sample :: ·), u) := by
  cases h with
  | all h => exact .all (.cons hexpr hsample h)
  | refused hpicks h hrefused =>
    exact .refused (congrArg (entry :: ·) hpicks) (.cons hexpr hsample h) hrefused
  | exhausted hpicks h hexpr' hnone =>
    exact .exhausted (congrArg (entry :: ·) hpicks) (.cons hexpr hsample h) hexpr' hnone

theorem endsIn_evaluateAnew (evaluates : Bool) (picks : List Entry) (s : σ) :
    EndsIn evaluates picks s (evaluateAnew evaluates picks s) := by
  induction picks generalizing s with
  | nil => exact .all .nil
  | cons entry rest ih =>
    rw [evaluateAnew]
    cases hexpr : entry.expr evaluates with
    | error cause => exact .refused (List.nil_append _).symm .nil hexpr
    | ok expr =>
      cases hsample : expr.evaluate s with
      | none =>
        simp only [hsample]
        exact .exhausted (List.nil_append _).symm .nil hexpr hsample
      | some drawn =>
        obtain ⟨sample, t⟩ := drawn
        simp only [hsample]
        exact (ih t).cons hexpr hsample

/-! ## Statements -/

/-- Runs a statement without a memory: each pick is classified when it is evaluated. -/
def Statement.runAnew (statement : Statement) (s : σ) : Except Error (List Sample) × σ :=
  match statement.picks s with
  | none => (.error .exhausted, s)
  | some (picks, s) => evaluateAnew statement.evaluates picks s

/-- Entries that are not picked may have any texts. -/
theorem Statement.run_unpicked {entries : Array Entry} (hentries : Numbered entries)
    {options : Options} {s s' : σ} {picks : List Entry}
    (hpicks : Statement.picks ⟨entries, options⟩ s = some (picks, s')) {f : Entry → Entry}
    (hids : ∀ e, (f e).id = e.id) (hfixed : ∀ e ∈ picks, f e = e) :
    Statement.run ⟨entries.map f, options⟩ s = Statement.run ⟨entries, options⟩ s := by
  have hmapped : Numbered (entries.map f) := by
    unfold Numbered
    rw [Array.toList_map, List.pairwise_map]
    simp only [hids]
    exact hentries
  have hsame : Statement.picks ⟨entries.map f, options⟩ s = some (picks, s') := by
    have hkey : ∀ x y, Entry.id (f x) ≤ Entry.id (f y) ↔ Entry.id x ≤ Entry.id y := by
      intro x y
      rw [hids, hids]
    have hselect : select Entry.id options entries s = some (picks, s') := hpicks
    have hmap : select Entry.id options (entries.map f) s = some (picks.map f, s') := by
      rw [select_map f hkey, hselect]
      rfl
    rw [List.map_congr_left hfixed, List.map_id'] at hmap
    exact hmap
  rw [Statement.run_eq _ hmapped, Statement.run_eq _ hentries, hsame, hpicks]
  simp only [Statement.evaluates, Statement.population, Array.size_map]

namespace Session

/-- Ends the statement of the pending entries, run in a given way. -/
def endStatementBy (run : Statement → σ → Except Error (List Sample) × σ) (options : Options)
    (s : Session σ) : Run σ :=
  let statement := s.statement options
  match run statement s.source with
  | (.error error, source) =>
    ⟨[], some { error, statement := some statement }, { s with pending := #[], source }⟩
  | (.ok samples, source) =>
    let after := { s with pending := #[], source }
    ⟨[⟨statement, samples⟩], none, if options.push then after.addValues samples else after⟩

theorem endStatementBy_run (options : Options) (s : Session σ) :
    s.endStatementBy Statement.run options = s.endStatement options := rfl

/-- **The memory of a statement is not seen.** In every session that can be reached, a statement
ends with the samples, the error, the pushed entries and the source that it ends with if each pick
is classified anew. It ends at the first pick that is refused, after the draws of the picks before
it, and evaluates all others, each by draws of its own; and the texts of entries that are not
picked make no difference. -/
theorem endStatement_anew (separators : Separators) (source : σ) (ops : List Operation)
    (options : Options) :
    let s := (fresh separators source).after ops
    let statement := s.statement options
    s.endStatement options = s.endStatementBy Statement.runAnew options ∧
      ∀ picks source', statement.picks s.source = some (picks, source') →
        EndsIn statement.evaluates picks source' (statement.run s.source) ∧
        ∀ f : Entry → Entry, (∀ e, (f e).id = e.id) → (∀ e ∈ picks, f e = e) →
          Statement.run ⟨s.pending.map f, options⟩ s.source = statement.run s.source := by
  intro s statement
  have hentries : Numbered s.pending := (consistent_after separators source ops).increasing
  have hrun : (s.statement options).run s.source = (s.statement options).runAnew s.source :=
    Statement.run_eq _ hentries s.source
  refine ⟨?_, fun picks source' hpicks => ⟨?_, fun f hids hfixed => ?_⟩⟩
  · rw [← endStatementBy_run, endStatementBy, endStatementBy, hrun]
  · rw [hrun, Statement.runAnew, hpicks]
    exact endsIn_evaluateAnew statement.evaluates picks source'
  · exact Statement.run_unpicked hentries hpicks hids hfixed

/-- An entry that is picked twice is rolled twice, and one without sides is not picked. -/
theorem endStatement_anew_twice :
    let options : Options := { amount := .count 2, repeating := true, evaluate := some true }
    let tape : Tape := ⟨[(.range 0 2, 0), (.range 0 2, 0), (.range 1 7, 3), (.range 1 7, 5)]⟩
    let s := (fresh {} tape).after [.add ['d', '6'], .add ['d', '0']]
    let picks : List Entry := [⟨0, ['d', '6']⟩, ⟨0, ['d', '6']⟩]
    let samples : List Sample := [.roll ⟨{}, [⟨3, false⟩]⟩, .roll ⟨{}, [⟨5, false⟩]⟩]
    (s.endStatementBy Statement.runAnew options).outputs = [samples] ∧
      EndsIn true picks (⟨[(.range 1 7, 3), (.range 1 7, 5)]⟩ : Tape) (.ok samples, ⟨[]⟩) ∧
      Statement.run ⟨#[⟨0, ['d', '6']⟩, ⟨1, ['x']⟩], options⟩ tape =
        (s.statement options).run s.source := by
  intro options tape s picks samples
  have hpicks : (s.statement options).picks s.source =
      some (picks, ⟨[(.range 1 7, 3), (.range 1 7, 5)]⟩) := by
    decide +kernel
  have houtputs : (s.endStatement options).outputs = [samples] := by decide +kernel
  have hrun : (s.statement options).run s.source = (.ok samples, ⟨[]⟩) := by decide +kernel
  obtain ⟨hanew, hpicked⟩ := endStatement_anew {} tape [.add ['d', '6'], .add ['d', '0']] options
  obtain ⟨hends, hunpicked⟩ := hpicked _ _ hpicks
  refine ⟨hanew ▸ houtputs, hrun ▸ hends, ?_⟩
  let f : Entry → Entry := fun e => ⟨e.id, if e.id = 0 then e.text else ['x']⟩
  have hfixed : ∀ e ∈ picks, f e = e := by decide
  have hentries : s.pending.map f = #[⟨0, ['d', '6']⟩, ⟨1, ['x']⟩] := by decide +kernel
  rw [← hentries]
  exact hunpicked f (fun _ => rfl) hfixed

end Session

end Lots
