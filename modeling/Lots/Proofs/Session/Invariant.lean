import Lots.Proofs.Session.Evolution

/-!
# Lots — what holds of every session

Whatever is asked of a session, and whether it ends well or fails, the pending entries stay
numbered in order below the next id, their texts stay tidy, and the separators stay as they
are until a change of them is accepted.

* **`conserves_after`** — over operations in a row ids are conserved. For a fresh session
  this says that the ids of all entries there ever were are 0, 1, 2 and so on, each once.
* **`consistent_after`** — the invariant itself. That pending ids increase is read off the
  conservation of ids: they are the last part of a range.
* **`reachable_session`** — both, with what one more operation may change.
-/

namespace Lots.Session

variable {σ : Type} [Source σ]

/-! ## Separators -/

/-- What an operation does to the separators. Only an accepted change replaces them: it sets
what it merges to and touches nothing else. A refused one leaves the session as it was. -/
def RespectsSeparators (s : Session σ) (op : Operation) (run : Run σ) : Prop :=
  match op with
  | .setSeparators change =>
    (∃ new, s.separators.Merges change new ∧ run = .done { s with separators := new }) ∨
      ((¬ ∃ new, s.separators.Merges change new) ∧ run.failure.isSome ∧ run.ended = [] ∧
        run.state = s)
  | _ => run.state.separators = s.separators

theorem respectsSeparators_perform (s : Session σ) (op : Operation) :
    s.RespectsSeparators op (s.perform op) := by
  cases op with
  | setSeparators change =>
    cases hreplace : s.separators.replace change with
    | ok new =>
      refine .inl ⟨new, Separators.replace_eq_ok_iff.mp hreplace, ?_⟩
      simp [perform, setSeparators, hreplace, Except.map]
    | error faults =>
      refine .inr ⟨?_, ?_⟩
      · rintro ⟨new, hmerges⟩
        rw [Separators.replace_eq_ok_iff.mpr hmerges] at hreplace
        cases hreplace
      · simp [perform, setSeparators, hreplace, Except.map]
  | add text => exact Evolves.separators (evolves_perform s (.add text) nofun)
  | line text => exact Evolves.separators (evolves_perform s (.line text) nofun)
  | take limit text => exact Evolves.separators (evolves_perform s (.take limit text) nofun)
  | flush => exact Evolves.separators (evolves_perform s .flush nofun)

/-! ## Ids and texts -/

/-- Pending entries are numbered in order, below the next id, and their texts are tidy. -/
structure Consistent (s : Session σ) : Prop where
  increasing : s.pending.toList.Pairwise fun x y => x.id < y.id
  below : ∀ e ∈ s.pending, e.id < s.nextId
  tidy : ∀ e ∈ s.pending, Entry.Tidy e

/-- Either an operation evolves, or it replaces separators at most. -/
theorem perform_cases (s : Session σ) (op : Operation) :
    (s.perform op).Evolves s ∨
      ((s.perform op).spent = [] ∧ ∃ separators, (s.perform op).state = { s with separators }) := by
  cases op with
  | setSeparators change =>
    right
    -- accepted or refused, a change gives nothing out and makes nothing leave
    have hlaw := respectsSeparators_perform s (.setSeparators change)
    rcases hlaw with ⟨new, -, hrun⟩ | ⟨-, -, -, hstate⟩
    · rw [hrun]
      exact ⟨rfl, new, rfl⟩
    · refine ⟨?_, s.separators, hstate⟩
      simp only [perform]
      split <;> rfl
  | add text => exact .inl (evolves_perform s (.add text) nofun)
  | line text => exact .inl (evolves_perform s (.line text) nofun)
  | take limit text => exact .inl (evolves_perform s (.take limit text) nofun)
  | flush => exact .inl (evolves_perform s .flush nofun)

theorem conserves_perform (s : Session σ) (op : Operation) :
    Conserves s (s.perform op).spent (s.perform op).state := by
  rcases perform_cases s op with hevolves | ⟨hspent, separators, hstate⟩
  · exact Evolves.conserves hevolves
  · rw [hspent, hstate]
    exact ⟨0, rfl, by simp⟩

theorem tidy_perform (s : Session σ) (op : Operation) (h : ∀ e ∈ s.pending, Entry.Tidy e) :
    ∀ e ∈ (s.perform op).state.pending, Entry.Tidy e := by
  rcases perform_cases s op with hevolves | ⟨-, separators, hstate⟩
  · exact Evolves.texts hevolves h
  · rw [hstate]
    exact h

theorem conserves_after (s : Session σ) (ops : List Operation) :
    Conserves s ((s.runs ops).flatMap Run.spent) (s.after ops) := by
  induction ops generalizing s with
  | nil => exact ⟨0, rfl, by simp [runs, after]⟩
  | cons op rest ih =>
    rw [after_cons, runs, List.flatMap_cons]
    exact (conserves_perform s op).trans (ih (s.perform op).state)

theorem tidy_after (s : Session σ) (ops : List Operation) (h : ∀ e ∈ s.pending, Entry.Tidy e) :
    ∀ e ∈ (s.after ops).pending, Entry.Tidy e := by
  induction ops generalizing s with
  | nil => exact h
  | cons op rest ih => exact ih (s.perform op).state (tidy_perform s op h)

/-- The ids of all entries there ever were are the first ones, each once and in order. -/
theorem ids_after_fresh (separators : Separators) (source : σ) (ops : List Operation) :
    ((((fresh separators source).runs ops).flatMap Run.spent) ++
        ((fresh separators source).after ops).pending.toList).map Entry.id =
      List.range ((fresh separators source).after ops).nextId := by
  -- a fresh session starts with no entry and with id 0
  obtain ⟨given, hnext, hids⟩ := conserves_after (fresh separators source) ops
  have hgiven : ((fresh separators source).after ops).nextId = given := by
    rw [hnext]
    exact Nat.zero_add given
  rw [hids, hgiven, List.range_eq_range']
  rfl

theorem consistent_after (separators : Separators) (source : σ) (ops : List Operation) :
    ((fresh separators source).after ops).Consistent := by
  have hids := ids_after_fresh separators source ops
  have htidy := tidy_after (fresh separators source) ops (by simp [fresh])
  generalize (fresh separators source).after ops = s at hids htidy ⊢
  rw [List.map_append] at hids
  -- the pending ids are the last part of the range of all ids
  have hsuffix : s.pending.toList.map Entry.id <:+ List.range s.nextId := ⟨_, hids⟩
  refine ⟨?_, ?_, htidy⟩
  · have hpairwise := List.Pairwise.sublist hsuffix.sublist List.pairwise_lt_range
    exact List.pairwise_map.mp hpairwise
  · intro e he
    have hmem : e.id ∈ s.pending.toList.map Entry.id := List.mem_map_of_mem (by simpa using he)
    exact List.mem_range.mp (hsuffix.subset hmem)

/-- **What holds of every session.** Operations in a row, failing ones included, leave a
consistent session; over all of them the ids 0, 1, 2 and so on were given to one entry
each; the separators are three different characters that may separate; and one more
operation neither takes ids back nor touches the separators but by an accepted change. -/
theorem reachable_session (separators : Separators) (source : σ) (ops : List Operation) :
    let start := fresh separators source
    let s := start.after ops
    let roles := [s.separators.stmt, s.separators.entry, s.separators.options]
    s.Consistent ∧
      ((start.runs ops).flatMap Run.spent ++ s.pending.toList).map Entry.id =
        List.range s.nextId ∧
      roles.Nodup ∧ (∀ c ∈ roles, c ∉ reservedChars ∧ Text.isBlank c = false) ∧
      ∀ op, s.nextId ≤ (s.perform op).state.nextId ∧ s.RespectsSeparators op (s.perform op) := by
  intro start s roles
  refine ⟨consistent_after separators source ops, ids_after_fresh separators source ops,
    ?_, ?_, ?_⟩
  · have hstmt := s.separators.stmt_ne_entry
    have hoptions := s.separators.stmt_ne_options
    have hentry := s.separators.entry_ne_options
    simp [roles, hstmt, hoptions, hentry]
  · intro c hc
    have hcan : canSeparate c = true := by
      simp only [roles, List.mem_cons, List.not_mem_nil, or_false] at hc
      rcases hc with rfl | rfl | rfl
      · exact s.separators.canSeparate_stmt
      · exact s.separators.canSeparate_entry
      · exact s.separators.canSeparate_options
    simpa [canSeparate] using hcan
  · intro op
    obtain ⟨given, hnext, -⟩ := conserves_perform s op
    exact ⟨by omega, respectsSeparators_perform s op⟩

end Lots.Session
