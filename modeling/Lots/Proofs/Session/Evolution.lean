import Lots.Session.Operation

/-!
# Lots — what a session may do

Everything that a session does is made of two elementary changes: an entry is added, or
all pending entries leave at once while the source moves on. `Evolves` is the closure of
these two, with the entries that left on the way; `evolves_perform` says that every
operation but a change of separators is such an evolution, whether it ends well, fails or
is left early. Facts about all operations are then inductions over two cases:

* **`Evolves.separators`** — no evolution touches the separators.
* **`Evolves.conserves`** — ids are conserved: those that were pending and those given out
  since have left or are pending, each once and in order.
* **`Evolves.texts`** — pending texts stay stripped and are never empty.
-/

namespace Lots.Session

variable {σ : Type}

/-! ## Entries that leave -/

/-- The entries that a failure took with it: those of the statement that was being run, and
those that were forgotten. -/
def Failure.entries (failure : Failure) : List Entry :=
  ((failure.statement.map (·.entries.toList)).getD []) ++ failure.discarded.toList

/-- The entries that left the pending ones in a run, in order. -/
def Run.spent (run : Run σ) : List Entry :=
  run.ended.flatMap (·.statement.entries.toList) ++ ((run.failure.map Failure.entries).getD [])

/-- How a session becomes another one while these entries leave. -/
inductive Evolves : Session σ → List Entry → Session σ → Prop where
  | refl {s : Session σ} : Evolves s [] s
  | add {s t : Session σ} {gone : List Entry} (text : List Char)
      (hrest : Evolves (s.add text) gone t) : Evolves s gone t
  | clear {s t : Session σ} {gone : List Entry} (source : σ)
      (hrest : Evolves { s with pending := #[], source } gone t) :
      Evolves s (s.pending.toList ++ gone) t

theorem Evolves.trans {s t u : Session σ} {gone more : List Entry}
    (h : Evolves s gone t) (h' : Evolves t more u) : Evolves s (gone ++ more) u := by
  induction h with
  | refl => exact h'
  | add text _ ih => exact .add text (ih h')
  | clear source _ ih =>
    rw [List.append_assoc]
    exact .clear source (ih h')

/-! ## Operations evolve -/

theorem evolves_addValues (s : Session σ) (samples : List Sample) :
    Evolves s [] (s.addValues samples) := by
  unfold addValues
  induction samples generalizing s with
  | nil => exact .refl
  | cons sample rest ih => exact .add sample.value (ih (s.add sample.value))

/-- A run evolves if it evolves from where it started. -/
def Run.Evolves (s : Session σ) (run : Run σ) : Prop :=
  Session.Evolves s run.spent run.state

theorem Run.Evolves.andThen {s : Session σ} {run : Run σ} {next : Session σ → Run σ}
    (h : run.Evolves s) (hnext : ∀ t, (next t).Evolves t) : (run.andThen next).Evolves s := by
  obtain ⟨ended, failure, state⟩ := run
  cases failure with
  | some failure => exact h
  | none =>
    have hmore : Session.Evolves state (next state).spent (next state).state := hnext state
    have hboth := Session.Evolves.trans h hmore
    simpa [Run.Evolves, Run.andThen, Run.spent] using hboth

theorem evolves_done (s : Session σ) : (Run.done s).Evolves s :=
  Session.Evolves.refl

theorem evolves_fail (s : Session σ) (error : Error) : (s.fail error).Evolves s := by
  unfold fail
  split
  · have hclear : Evolves s (s.pending.toList ++ []) { s with pending := #[] } :=
      .clear s.source .refl
    simpa [Run.Evolves, Run.spent, Failure.entries] using hclear
  · simpa [Run.Evolves, Run.spent, Failure.entries] using (Evolves.refl : Evolves s [] s)

variable [Source σ]

theorem evolves_endStatement (s : Session σ) (options : Options) :
    (s.endStatement options).Evolves s := by
  cases hrun : (s.statement options).run s.source with
  | mk outcome source =>
    have hclear : Evolves s (s.pending.toList ++ []) { s with pending := #[], source } :=
      .clear source .refl
    cases outcome with
    | error error =>
      rw [endStatement_of_error hrun]
      simpa [Run.Evolves, Run.spent, Failure.entries, statement] using hclear
    | ok samples =>
      rw [endStatement_of_ok hrun]
      -- pushed values come back as entries after the statement's own have left
      cases hpush : options.push with
      | false => simpa [Run.Evolves, Run.spent, statement] using hclear
      | true =>
        have hpushed := hclear.trans (evolves_addValues _ samples)
        simpa [Run.Evolves, Run.spent, statement] using hpushed

theorem evolves_flush (s : Session σ) : s.flush.Evolves s := by
  unfold flush
  split
  · exact evolves_done s
  · exact evolves_endStatement s {}

theorem evolves_runParts (fault : Option Line.Fault) (limit : Option Nat)
    (options : Option Options) (parts : List Line.Part) (s : Session σ) :
    (runParts fault limit options parts s).Evolves s := by
  fun_induction runParts fault limit options parts s with
  | case1 => exact evolves_done _
  | case2 limit options s hlimit text rest ih => exact .add text ih
  | case3 => exact evolves_fail _ _
  | case4 limit options s hlimit text rest parsed hparse ih => exact ih
  | case5 limit options s hlimit rest ih =>
    exact (evolves_endStatement s (options.getD {})).andThen ih
  -- behind the last part: a fault, options of an open statement, or nothing
  | case6 => exact evolves_fail _ _
  | case7 => exact evolves_endStatement _ _
  | case8 => exact evolves_done _

theorem evolves_runUpTo (limit : Option Nat) (line : List Char) (s : Session σ) :
    (s.runUpTo limit line).Evolves s :=
  evolves_runParts _ _ _ _ _

/-- **Every operation evolves**, unless it asks for other separators. -/
theorem evolves_perform (s : Session σ) (op : Operation)
    (hop : ∀ change, op ≠ .setSeparators change) : (s.perform op).Evolves s := by
  cases op with
  | add text => exact .add text .refl
  | line text => exact evolves_runUpTo none text s
  | take limit text => exact evolves_runUpTo (some limit) text s
  | flush => exact evolves_flush s
  | setSeparators change => exact absurd rfl (hop change)

/-! ## What evolutions keep -/

omit [Source σ]

theorem add_separators (s : Session σ) (text : List Char) :
    (s.add text).separators = s.separators := by
  by_cases hblank : Text.strip text = []
  · rw [add_of_blank s hblank]
  · rw [add_of_not_blank s hblank]

theorem Evolves.separators {s t : Session σ} {gone : List Entry} (h : Evolves s gone t) :
    t.separators = s.separators := by
  induction h with
  | refl => rfl
  | add text _ ih => rw [ih, add_separators]
  | clear source _ ih => rw [ih]

/-- Ids are conserved: those of the pending entries, and the next ones as far as they were
given out, are those of the entries that left and of the ones that are pending now. -/
def Conserves (s : Session σ) (gone : List Entry) (t : Session σ) : Prop :=
  ∃ given, t.nextId = s.nextId + given ∧
    (gone ++ t.pending.toList).map Entry.id =
      s.pending.toList.map Entry.id ++ List.range' s.nextId given

theorem Conserves.trans {s t u : Session σ} {gone more : List Entry} (h : Conserves s gone t)
    (h' : Conserves t more u) : Conserves s (gone ++ more) u := by
  obtain ⟨given, hnext, hids⟩ := h
  obtain ⟨given', hnext', hids'⟩ := h'
  refine ⟨given + given', by omega, ?_⟩
  calc (gone ++ more ++ u.pending.toList).map Entry.id
      = gone.map Entry.id ++ (more ++ u.pending.toList).map Entry.id := by
        rw [List.append_assoc, List.map_append]
    _ = (gone ++ t.pending.toList).map Entry.id ++ List.range' t.nextId given' := by
        rw [hids', ← List.append_assoc, ← List.map_append]
    _ = s.pending.toList.map Entry.id ++
          (List.range' s.nextId given ++ List.range' (s.nextId + given) given') := by
        rw [hids, List.append_assoc, hnext]
    _ = s.pending.toList.map Entry.id ++ List.range' s.nextId (given + given') := by
        rw [List.range'_append_1]

theorem conserves_add (s : Session σ) (text : List Char) : Conserves s [] (s.add text) := by
  by_cases hblank : Text.strip text = []
  · rw [add_of_blank s hblank]
    exact ⟨0, rfl, by simp⟩
  · rw [add_of_not_blank s hblank]
    exact ⟨1, rfl, by simp⟩

theorem Evolves.conserves {s t : Session σ} {gone : List Entry} (h : Evolves s gone t) :
    Conserves s gone t := by
  induction h with
  | refl => exact ⟨0, rfl, by simp⟩
  | @add s _ _ text _ ih => exact (conserves_add s text).trans ih
  | @clear s _ _ source _ ih =>
    have hclear : Conserves s s.pending.toList { s with pending := #[], source } :=
      ⟨0, rfl, by simp⟩
    exact hclear.trans ih

/-- A text that can be pending: something, and stripped. -/
def Entry.Tidy (entry : Entry) : Prop :=
  entry.text ≠ [] ∧ Text.Stripped entry.text

theorem tidy_add {s : Session σ} (text : List Char) (h : ∀ e ∈ s.pending, Entry.Tidy e) :
    ∀ e ∈ (s.add text).pending, Entry.Tidy e := by
  by_cases hblank : Text.strip text = []
  · rw [add_of_blank s hblank]
    exact h
  · rw [add_of_not_blank s hblank]
    intro e he
    rcases Array.mem_push.mp he with hold | rfl
    · exact h e hold
    · exact ⟨hblank, Text.stripped_strip text⟩

theorem Evolves.texts {s t : Session σ} {gone : List Entry} (h : Evolves s gone t)
    (hs : ∀ e ∈ s.pending, Entry.Tidy e) : ∀ e ∈ t.pending, Entry.Tidy e := by
  induction h with
  | refl => exact hs
  | add text _ ih => exact ih (tidy_add text hs)
  | clear source _ ih => exact ih (by simp)

end Lots.Session
