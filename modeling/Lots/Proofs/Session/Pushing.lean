import Lots.Proofs.Sample.Values
import Lots.Proofs.Statement.Origin

/-!
# Lots — pushed samples

The values of samples that are pushed become the entries of the next statement. Nothing is
lost on the way, because every value is a text that an entry can have: so they are all added,
as they are and in order, and listing them gives them out again.

* **`tidy_run`** — the values of the samples that a statement gives can be entries. A sample
  that is a text has the text of an entry of the statement (`SampleOf.text_eq`).
* **`texts_addValues`** — values that can be entries all become entries.
* **`run_list`** — a listed statement gives the texts of its entries and draws nothing.
* **`push_then_list`** — the three together.
-/

namespace Lots

variable {σ : Type} [Source σ]

/-! ## Texts that can be entries -/

/-- A text that an entry can have: something, and stripped. -/
def Text.Tidy (text : List Char) : Prop :=
  text ≠ [] ∧ Text.Stripped text

/-- Stripping and leaving out what is blank changes nothing in such texts. -/
theorem Text.filter_strip_of_tidy {texts : List (List Char)} (h : ∀ text ∈ texts, Tidy text) :
    (texts.map strip).filter (!·.isEmpty) = texts := by
  have hstrip : texts.map strip = texts :=
    calc texts.map strip = texts.map id :=
          List.map_congr_left fun text htext => strip_eq_self_iff.mpr (h text htext).2
      _ = texts := List.map_id texts
  rw [hstrip, List.filter_eq_self]
  intro text htext
  simpa using (h text htext).1

/-- A sample's value can be an entry, if the sample is no text or has a text that can. -/
theorem Sample.tidy_value {sample : Sample} (h : ∀ t, sample = .text t → Text.Tidy t) :
    Text.Tidy sample.value := by
  by_cases htext : ∃ t, sample = .text t
  · obtain ⟨t, rfl⟩ := htext
    exact h t rfl
  · have hno : ∀ t, sample ≠ .text t := fun t ht => htext ⟨t, ht⟩
    exact ⟨value_ne_nil hno, (unblank_value hno).stripped⟩

/-! ## Samples of a statement -/

/-- **Values can be entries** again, if the entries of the statement could. -/
theorem Statement.tidy_run {statement : Statement} {s s' : σ} {samples : List Sample}
    (h : statement.run s = (.ok samples, s'))
    (hentries : ∀ e ∈ statement.entries, Text.Tidy e.text) :
    ∀ x ∈ samples, Text.Tidy x.value := by
  intro x hx
  obtain ⟨e, he, hsample⟩ := Statement.sampleOf_of_run h x hx
  apply Sample.tidy_value
  rintro t rfl
  rw [hsample.text_eq]
  exact hentries e he

/-! ## Listing -/

/-- Picks that are not evaluated give their texts and draw nothing. -/
theorem evaluatePicks_literal (known : Classified) (samples : Array Sample) (picks : List Entry)
    (s : σ) :
    evaluatePicks false known samples picks s =
      (.ok (samples.toList ++ picks.map fun e => .text e.text), s) := by
  induction picks generalizing samples with
  | nil => simp [evaluatePicks]
  | cons entry rest ih =>
    simp only [evaluatePicks, classify, Bool.false_eq_true, if_false]
    exact (ih (samples.push (.text entry.text))).trans (by simp)

theorem Selection.select_list (xs : Array Entry) (s : σ) :
    select Entry.id Options.list xs s = some (xs.toList, s) := by
  unfold select
  by_cases hempty : xs.isEmpty = true
  · have hnil : xs = #[] := by simpa using hempty
    subst hnil
    rfl
  · -- everything is picked, and the order is kept
    simp [hempty, Options.list, Options.count]

theorem Statement.run_list (entries : Array Entry) (s : σ) :
    Statement.run ⟨entries, Options.list⟩ s =
      (.ok (entries.toList.map fun e => .text e.text), s) := by
  have hpicks : Statement.picks ⟨entries, Options.list⟩ s = some (entries.toList, s) :=
    Selection.select_list entries s
  have hliteral : Statement.evaluates ⟨entries, Options.list⟩ = false := rfl
  rw [Statement.run, hpicks, hliteral]
  exact evaluatePicks_literal [] #[] entries.toList s

/-! ## Pushing and listing -/

namespace Session

omit [Source σ] in
/-- Texts that are not blank become entries, stripped and in order. -/
theorem texts_foldl_add (s : Session σ) (texts : List (List Char)) :
    (texts.foldl add s).pending.toList.map Entry.text =
      s.pending.toList.map Entry.text ++ (texts.map Text.strip).filter (!·.isEmpty) := by
  induction texts generalizing s with
  | nil => simp
  | cons text rest ih =>
    rw [List.foldl_cons, ih (s.add text)]
    by_cases hblank : Text.strip text = []
    · rw [add_of_blank s hblank]
      simp [hblank]
    · rw [add_of_not_blank s hblank]
      simp [hblank]

omit [Source σ] in
theorem add_source (s : Session σ) (text : List Char) : (s.add text).source = s.source := by
  by_cases hblank : Text.strip text = []
  · rw [add_of_blank s hblank]
  · rw [add_of_not_blank s hblank]

omit [Source σ] in
theorem addValues_eq_foldl (s : Session σ) (samples : List Sample) :
    s.addValues samples = (samples.map Sample.value).foldl add s :=
  List.foldl_map.symm

omit [Source σ] in
theorem texts_addValues (s : Session σ) {samples : List Sample}
    (h : ∀ x ∈ samples, Text.Tidy x.value) :
    (s.addValues samples).pending.toList.map Entry.text =
      s.pending.toList.map Entry.text ++ samples.map Sample.value := by
  have htidy : ∀ text ∈ samples.map Sample.value, Text.Tidy text := by
    intro text htext
    obtain ⟨x, hx, rfl⟩ := List.mem_map.mp htext
    exact h x hx
  rw [addValues_eq_foldl, texts_foldl_add, Text.filter_strip_of_tidy htidy]

omit [Source σ] in
theorem addValues_source (s : Session σ) (samples : List Sample) :
    (s.addValues samples).source = s.source := by
  unfold addValues
  induction samples generalizing s with
  | nil => rfl
  | cons sample rest ih =>
    rw [List.foldl_cons, ih (s.add sample.value), add_source]

omit [Source σ] in
/-- The entries that values become are listed as these values. -/
theorem listed_addValues {s : Session σ} (hs : s.pending = #[]) {samples : List Sample}
    (h : ∀ x ∈ samples, Text.Tidy x.value) :
    ((s.addValues samples).pending.toList.map fun e => Sample.text e.text) =
      samples.map fun x => .text (x.render true) := by
  have htexts : (s.addValues samples).pending.toList.map Entry.text =
      samples.map Sample.value := by
    simpa [hs] using texts_addValues s h
  calc ((s.addValues samples).pending.toList.map fun e => Sample.text e.text)
      = ((s.addValues samples).pending.toList.map Entry.text).map Sample.text := by
        rw [List.map_map]
        rfl
    _ = samples.map fun x => .text (x.render true) := by
        rw [htexts, List.map_map]
        rfl

theorem endStatement_list (s : Session σ) :
    s.endStatement Options.list =
      ⟨[⟨s.statement Options.list, s.pending.toList.map fun e => .text e.text⟩], none,
        { s with pending := #[] }⟩ :=
  endStatement_of_ok (Statement.run_list s.pending s.source)

/-- **Pushed samples are all there.** Ending a statement with its samples pushed and listing
the next one gives no samples and then, as texts, the values of those that the statement
gives if they are not pushed. Both fail or neither does, with one error; and they draw the
same. -/
theorem push_then_list (separators : Separators) (source : σ) (ops : List Operation)
    (options : Options) :
    let s := (fresh separators source).after ops
    let plain := s.endStatement { options with push := false }
    let pushed := (s.endStatement { options with push := true }).andThen
      (endStatement Options.list)
    pushed.state.source = plain.state.source ∧ pushed.state.pending = #[] ∧
      ((∃ samples, plain.failure = none ∧ plain.outputs = [samples] ∧
          pushed.failure = none ∧
          pushed.outputs = [[], samples.map fun x => .text (x.render true)]) ∨
        (∃ error, plain.failure.map (·.error) = some error ∧ plain.outputs = [] ∧
          pushed.failure.map (·.error) = some error ∧ pushed.outputs = [])) := by
  intro s plain pushed
  have htidy : ∀ e ∈ s.pending, Text.Tidy e.text :=
    (consistent_after separators source ops).tidy
  -- whether its samples are pushed is no matter of running the statement
  have hrun : (s.statement { options with push := true }).run s.source =
      (s.statement { options with push := false }).run s.source := rfl
  cases hplain : (s.statement { options with push := false }).run s.source with
  | mk outcome source' =>
    rw [hplain] at hrun
    cases outcome with
    | error error =>
      have hends : plain = _ := endStatement_of_error hplain
      have hfirst := endStatement_of_error hrun
      have hpushed : pushed = _ := Run.andThen_of_failure (by rw [hfirst]) _
      rw [hends, hpushed, hfirst]
      exact ⟨rfl, rfl, .inr ⟨error, rfl, rfl, rfl, rfl⟩⟩
    | ok samples =>
      let after : Session σ := { s with pending := #[], source := source' }
      let t := after.addValues samples
      have hends : plain = ⟨[⟨s.statement { options with push := false }, samples⟩], none,
          after⟩ := endStatement_of_ok hplain
      have hfirst : s.endStatement { options with push := true } =
          ⟨[⟨s.statement { options with push := true }, samples⟩], none, t⟩ :=
        endStatement_of_ok hrun
      have hpushed : pushed = ⟨[⟨s.statement { options with push := true }, samples⟩] ++
          [⟨t.statement Options.list, t.pending.toList.map fun e => .text e.text⟩], none,
          { t with pending := #[] }⟩ := by
        show Run.andThen _ _ = _
        rw [hfirst, Run.andThen_of_ok rfl, endStatement_list]
      have hlisted : (t.pending.toList.map fun e => Sample.text e.text) = _ :=
        listed_addValues rfl (Statement.tidy_run hplain htidy)
      rw [hends, hpushed, hlisted]
      exact ⟨addValues_source after samples, rfl, .inl ⟨samples, rfl, rfl, rfl, rfl⟩⟩

end Session

end Lots
