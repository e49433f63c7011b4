import Lots.Proofs.Session.Invariant
import Lots.Proofs.Statement.Picks
import Mathlib.Data.List.Forall2

/-!
# Lots — the samples of a statement

A statement classifies an entry once and remembers what it is by the entry's id. Since no two
entries of a statement have one id, nobody can tell: the samples are those of picks that are
classified anew each time.

* **`evaluateAnew`** — evaluation without a memory.
* **`evaluatePicks_eq`**, **`Statement.run_eq`** — the memory is not seen. The induction is on
  the picks; what is remembered stays right (`Classified.Right`).
* **`Session.endStatement_samples`** — a statement gives one sample for each of its picks, in
  their order, and where nothing is evaluated their texts.
-/

namespace Lots

open Selection

variable {σ : Type} [Source σ]

/-! ## Evaluation without a memory -/

/-- What an entry means by itself. -/
def Entry.expr (evaluates : Bool) (entry : Entry) : Except Expr.Error Expr :=
  if evaluates then Expr.parse entry.text else .ok (.text entry.text)

/-- Classifies each pick anew and evaluates it, from left to right. -/
def evaluateAnew (evaluates : Bool) : List Entry → σ → Except Error (List Sample) × σ
  | [], s => (.ok [], s)
  | entry :: rest, s =>
    match entry.expr evaluates with
    | .error cause => (.error (.expression cause), s)
    | .ok expr =>
      match expr.evaluate s with
      | none => (.error .exhausted, s)
      | some (sample, s) =>
        let (result, s) := evaluateAnew evaluates rest s
        (result.map (sample :: ·), s)

/-- What is remembered of entries is what they mean. -/
def Classified.Right (known : Classified) (entries : List Entry) : Prop :=
  ∀ entry ∈ entries, ∀ expr, known.lookup entry.id = some expr →
    Expr.parse entry.text = .ok expr

/-- Classification gives what an entry means, and what it remembers stays right. -/
theorem classify_of_right (evaluates : Bool) {known : Classified} {entry : Entry}
    {entries : List Entry} (hknown : known.Right entries) (hentry : entry ∈ entries)
    (hids : ∀ x ∈ entries, ∀ y ∈ entries, x.id = y.id → x = y) :
    (∃ cause, classify evaluates known entry = .error cause ∧
        entry.expr evaluates = .error cause) ∨
      ∃ expr known', classify evaluates known entry = .ok (expr, known') ∧
        entry.expr evaluates = .ok expr ∧ known'.Right entries := by
  cases evaluates with
  | false => exact .inr ⟨.text entry.text, known, rfl, rfl, hknown⟩
  | true =>
    cases hlookup : known.lookup entry.id with
    | some expr =>
      have hexpr : entry.expr true = .ok expr := hknown entry hentry expr hlookup
      exact .inr ⟨expr, known, classify_of_lookup hlookup, hexpr, hknown⟩
    | none =>
      simp only [classify, Entry.expr, if_true, hlookup]
      cases hparse : Expr.parse entry.text with
      | error cause => exact .inl ⟨cause, rfl, rfl⟩
      | ok expr =>
        refine .inr ⟨expr, (entry.id, expr) :: known, rfl, rfl, ?_⟩
        intro other hother expr' hfound
        rw [List.lookup_cons] at hfound
        split at hfound
        · next hid =>
          -- the id that was added is the entry's own
          obtain rfl : other = entry := hids other hother entry hentry (by simpa using hid)
          cases hfound
          exact hparse
        · exact hknown other hother expr' hfound

/-- **The memory is not seen**, where an id stands for one entry. -/
theorem evaluatePicks_eq {evaluates : Bool} {known : Classified} {entries picks : List Entry}
    (hknown : known.Right entries) (hpicks : picks ⊆ entries)
    (hids : ∀ x ∈ entries, ∀ y ∈ entries, x.id = y.id → x = y) (samples : Array Sample) (s : σ) :
    evaluatePicks evaluates known samples picks s =
      ((evaluateAnew evaluates picks s).1.map (samples.toList ++ ·),
        (evaluateAnew evaluates picks s).2) := by
  induction picks generalizing known samples s with
  | nil => simp [evaluatePicks, evaluateAnew, Except.map]
  | cons entry rest ih =>
    obtain ⟨hentry, hrest⟩ := List.cons_subset.mp hpicks
    rw [evaluatePicks, evaluateAnew]
    rcases classify_of_right evaluates hknown hentry hids with
      ⟨cause, hclassify, hexpr⟩ | ⟨expr, known', hclassify, hexpr, hknown'⟩
    · simp only [hclassify, hexpr]
      rfl
    · simp only [hclassify, hexpr]
      cases expr.evaluate s with
      | none => rfl
      | some drawn =>
        obtain ⟨sample, s'⟩ := drawn
        simp only [ih hknown' hrest (samples.push sample) s']
        cases (evaluateAnew evaluates rest s').1 with
        | error error => rfl
        | ok more => simp [Except.map]

/-- A statement evaluates its picks as if it classified each of them anew. -/
theorem Statement.run_eq (statement : Statement) (hentries : Numbered statement.entries) (s : σ) :
    statement.run s =
      match statement.picks s with
      | none => (.error .exhausted, s)
      | some (picks, s) => evaluateAnew statement.evaluates picks s := by
  unfold Statement.run
  cases hpicks : statement.picks s with
  | none => rfl
  | some picked =>
    obtain ⟨picks, s'⟩ := picked
    have hsubset : picks ⊆ statement.entries.toList :=
      fun e he => Array.mem_toList_iff.mpr (mem_of_mem_select hpicks e he)
    have hids : ∀ x ∈ statement.entries.toList, ∀ y ∈ statement.entries.toList,
        x.id = y.id → x = y := fun x hx y hy =>
      hentries.eq_of_id_eq (Array.mem_toList_iff.mp hx) (Array.mem_toList_iff.mp hy)
    have hnothing : Classified.Right [] statement.entries.toList := nofun
    simp only [evaluatePicks_eq hnothing hsubset hids]
    obtain ⟨result, t⟩ := evaluateAnew statement.evaluates picks s'
    cases result with
    | error error => rfl
    | ok samples => rfl

/-! ## One sample for each pick -/

/-- A sample that an entry may give: its meaning gives it, from some draws. -/
def SampleOf (σ : Type) [Source σ] (evaluates : Bool) (entry : Entry) (sample : Sample) : Prop :=
  ∃ expr, entry.expr evaluates = .ok expr ∧ ∃ s s' : σ, expr.evaluate s = some (sample, s')

/-- What is not evaluated is a text. -/
theorem SampleOf.eq_text {entry : Entry} {sample : Sample} (h : SampleOf σ false entry sample) :
    sample = .text entry.text := by
  obtain ⟨expr, hexpr, s, s', hevaluate⟩ := h
  cases hexpr
  cases hevaluate
  rfl

theorem sampleOf_of_evaluateAnew {evaluates : Bool} {picks : List Entry} {samples : List Sample}
    {s s' : σ} (h : evaluateAnew evaluates picks s = (.ok samples, s')) :
    List.Forall₂ (SampleOf σ evaluates) picks samples := by
  induction picks generalizing samples s with
  | nil =>
    cases h
    exact .nil
  | cons entry rest ih =>
    rw [evaluateAnew] at h
    cases hexpr : entry.expr evaluates with
    | error cause => simp [hexpr] at h
    | ok expr =>
      simp only [hexpr] at h
      cases hevaluate : expr.evaluate s with
      | none => simp [hevaluate] at h
      | some drawn =>
        obtain ⟨sample, t⟩ := drawn
        simp only [hevaluate] at h
        cases hrest : evaluateAnew evaluates rest t with
        | mk result u =>
          cases result with
          | error error => simp [hrest, Except.map] at h
          | ok more =>
            simp only [hrest, Except.map] at h
            cases h
            exact .cons ⟨expr, hexpr, s, t, hevaluate⟩ (ih hrest)

theorem eq_texts_of_sampleOf {picks : List Entry} {samples : List Sample}
    (h : List.Forall₂ (SampleOf σ false) picks samples) :
    samples = picks.map fun e => .text e.text := by
  induction h with
  | nil => rfl
  | cons hfirst _ ih => rw [List.map_cons, hfirst.eq_text, ih]

namespace Session

/-- **What a statement picks and gives out.** Whatever entries are numbered and whatever the
state of the source, entries are picked iff each request that the pick makes is answered in its
range, and they are picked as the options say. A statement that does not fail gives one sample
for each of its picks, in their order: a sample of what the pick means, and the pick's text where
nothing is evaluated. -/
theorem endStatement_samples (separators : Separators) (source : σ) (ops : List Operation)
    (options : Options) :
    (∀ entries : Array Entry, Numbered entries → ∀ s s' : σ,
      ((∃ picks, select Entry.id options entries s = some (picks, s')) ↔
        Source.Answers (nextBound options entries.size) [] s s') ∧
      ∀ picks, select Entry.id options entries s = some (picks, s') →
        Picked options entries picks) ∧
    let s := (fresh separators source).after ops
    let run := s.endStatement options
    let evaluates := options.evaluates s.pending.size
    run.failure = none → options.push = false →
      ∃ picks source' samples,
        select Entry.id options s.pending s.source = some (picks, source') ∧
          Picked options s.pending picks ∧
          run.outputs = [samples] ∧ samples.length = pickCount options s.pending.size ∧
          List.Forall₂ (SampleOf σ evaluates) picks samples ∧
          (evaluates = false → samples = picks.map fun e => .text e.text) := by
  constructor
  · intro entries hentries s s'
    exact ⟨select_iff_answers Entry.id options entries s s',
      fun picks hselect => picked_of_select hentries hselect⟩
  intro s run evaluates hfailure hpush
  have hentries : Numbered s.pending := (consistent_after separators source ops).increasing
  have hrun := Statement.run_eq (s.statement options) hentries s.source
  cases hselect : select Entry.id options s.pending s.source with
  | none =>
    have hpicks : (s.statement options).picks s.source = none := hselect
    rw [hpicks] at hrun
    have hfailed : run = _ := endStatement_of_error hrun
    simp [hfailed] at hfailure
  | some picked =>
    obtain ⟨picks, source'⟩ := picked
    have hpicks : (s.statement options).picks s.source = some (picks, source') := hselect
    simp only [hpicks] at hrun
    cases hevaluate : evaluateAnew (s.statement options).evaluates picks source' with
    | mk result source'' =>
      rw [hevaluate] at hrun
      cases result with
      | error error =>
        have hfailed : run = _ := endStatement_of_error hrun
        simp [hfailed] at hfailure
      | ok samples =>
        have hended : run = _ := endStatement_of_ok hrun
        have hpicked := picked_of_select hentries hselect
        have hsamples : List.Forall₂ (SampleOf σ evaluates) picks samples :=
          sampleOf_of_evaluateAnew hevaluate
        refine ⟨picks, source', samples, rfl, hpicked, ?_, ?_, hsamples, ?_⟩
        · simp [hended, Run.outputs, Ended.output, statement, hpush]
        · rw [← hsamples.length_eq, hpicked.length]
        · intro hliteral
          rw [hliteral] at hsamples
          exact eq_texts_of_sampleOf hsamples

/-- Both entries are picked, the second one first, and each is evaluated. -/
theorem endStatement_samples_shuffled :
    let options : Options := { amount := .all, evaluate := some true }
    let tape : Tape := ⟨[(.range 0 2, 0), (.range 1 7, 5)]⟩
    let s := (fresh {} tape).after [.add ['d', '6'], .add ['b']]
    let picks : List Entry := [⟨1, ['b']⟩, ⟨0, ['d', '6']⟩]
    let samples : List Sample := [.text ['b'], .roll ⟨{}, [⟨5, false⟩]⟩]
    Numbered s.pending ∧
      Source.Answers (nextBound options s.pending.size) [] s.source ⟨[(.range 1 7, 5)]⟩ ∧
      select Entry.id options s.pending s.source = some (picks, ⟨[(.range 1 7, 5)]⟩) ∧
      Picked options s.pending picks ∧
      (s.endStatement options).failure = none ∧
      (s.endStatement options).outputs = [samples] ∧
      List.Forall₂ (SampleOf Tape true) picks samples := by
  intro options tape s picks samples
  have hentries : Numbered s.pending := by
    unfold Numbered
    decide +kernel
  have hfailure : (s.endStatement options).failure = none := by decide +kernel
  have hselect : select Entry.id options s.pending s.source =
      some (picks, ⟨[(.range 1 7, 5)]⟩) := by
    decide +kernel
  have houtputs : (s.endStatement options).outputs = [samples] := by decide +kernel
  obtain ⟨hpicks, hsamples⟩ := endStatement_samples {} tape [.add ['d', '6'], .add ['b']] options
  obtain ⟨hanswers, hpicked⟩ := hpicks s.pending hentries s.source ⟨[(.range 1 7, 5)]⟩
  obtain ⟨picks', source', samples', hselect', -, houtputs', -, hforall, -⟩ :=
    hsamples hfailure rfl
  obtain ⟨rfl, -⟩ := Prod.mk.inj (Option.some.inj (hselect.symm.trans hselect'))
  obtain ⟨rfl, -⟩ := List.cons.inj (houtputs.symm.trans houtputs')
  exact ⟨hentries, hanswers.mp ⟨picks, hselect⟩, hselect, hpicked picks hselect, hfailure,
    houtputs, hforall⟩

end Session

end Lots
