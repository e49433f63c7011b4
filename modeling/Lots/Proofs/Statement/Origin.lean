import Lots.Proofs.Statement.Sampling

/-!
# Lots — where samples come from

Every sample of a statement is drawn for one of its entries, whatever the ids of the entries
are: what is remembered of an entry was classified from the text of an entry. So a statement
invents no texts.

* **`Classified.From`** — what is remembered means one of these entries.
* **`Statement.sampleOf_of_run`** — each sample is one of an entry of the statement.
* **`SampleOf.text_eq`** — and if it is a text, the text of that entry.
-/

namespace Lots

variable {σ : Type} [Source σ]

/-! ## Samples of an entry -/

/-- Only a text is evaluated to a text, and to itself. -/
theorem Expr.eq_text_of_evaluate {expr : Expr} {t : List Char} {s s' : σ}
    (h : expr.evaluate s = some (.text t, s')) : expr = .text t := by
  cases expr with
  | text u =>
    obtain ⟨ht, -⟩ := Prod.mk.inj (Option.some.inj h)
    cases ht
    rfl
  | coin | color | uuid | dice | interval =>
    have hrun : (Expr.evaluate _).run s = some (.text t, s') := h
    simp [Expr.evaluate, Option.bind_eq_some_iff] at hrun

/-- A text that is classified as a text is that text. -/
theorem Expr.eq_of_parse_text {text t : List Char} (h : Expr.parse text = .ok (.text t)) :
    t = text := by
  unfold Expr.parse at h
  split at h
  · next expr _ _ hkeyword =>
    cases h
    -- no keyword stands for a text
    unfold Expr.keyword? at hkeyword
    repeat' split at hkeyword
    all_goals cases hkeyword
  all_goals cases h
  rfl

/-- A sample that is a text has the text of its entry. -/
theorem SampleOf.text_eq {evaluates : Bool} {entry : Entry} {t : List Char}
    (h : SampleOf σ evaluates entry (.text t)) : t = entry.text := by
  cases evaluates with
  | false =>
    cases h.eq_text
    rfl
  | true =>
    obtain ⟨expr, hexpr, s, s', hevaluate⟩ := h
    rw [Expr.eq_text_of_evaluate hevaluate] at hexpr
    exact Expr.eq_of_parse_text hexpr

/-! ## Samples of a statement -/

/-- What is remembered means one of these entries. -/
def Classified.From (known : Classified) (entries : List Entry) : Prop :=
  ∀ id expr, (id, expr) ∈ known → ∃ e ∈ entries, Expr.parse e.text = .ok expr

/-- Classification gives what one of the entries means, and remembers nothing else. -/
theorem from_classify {evaluates : Bool} {known known' : Classified} {entry : Entry}
    {expr : Expr} {entries : List Entry}
    (h : classify evaluates known entry = .ok (expr, known')) (hentry : entry ∈ entries)
    (hknown : known.From entries) :
    (∃ e ∈ entries, e.expr evaluates = .ok expr) ∧ known'.From entries := by
  cases evaluates with
  | false =>
    cases h
    exact ⟨⟨entry, hentry, rfl⟩, hknown⟩
  | true =>
    cases hlookup : known.lookup entry.id with
    | some found =>
      rw [classify_of_lookup hlookup] at h
      cases h
      obtain ⟨before, after, hsplit, -⟩ := List.lookup_eq_some_iff.mp hlookup
      exact ⟨hknown entry.id expr (by simp [hsplit]), hknown⟩
    | none =>
      simp only [classify, if_true, hlookup] at h
      cases hparse : Expr.parse entry.text with
      | error cause => simp [hparse, Except.map] at h
      | ok found =>
        simp only [hparse, Except.map] at h
        cases h
        refine ⟨⟨entry, hentry, hparse⟩, ?_⟩
        intro id other hmem
        rcases List.mem_cons.mp hmem with hnew | hold
        · obtain ⟨-, rfl⟩ := Prod.mk.inj hnew
          exact ⟨entry, hentry, hparse⟩
        · exact hknown id other hold

/-- Induction on the picks. What is remembered was classified from these entries, and stays so
when an entry is met for the first time. -/
theorem sampleOf_of_evaluatePicks {evaluates : Bool} {known : Classified}
    {samples : Array Sample} {entries picks : List Entry} {s s' : σ} {result : List Sample}
    (h : evaluatePicks evaluates known samples picks s = (.ok result, s'))
    (hpicks : picks ⊆ entries) (hknown : known.From entries)
    (hsamples : ∀ x ∈ samples, ∃ e ∈ entries, SampleOf σ evaluates e x) :
    ∀ x ∈ result, ∃ e ∈ entries, SampleOf σ evaluates e x := by
  induction picks generalizing known samples s with
  | nil =>
    cases h
    simpa using hsamples
  | cons entry rest ih =>
    obtain ⟨hentry, hrest⟩ := List.cons_subset.mp hpicks
    rw [evaluatePicks] at h
    cases hclassify : classify evaluates known entry with
    | error cause => simp [hclassify] at h
    | ok classified =>
      obtain ⟨expr, known'⟩ := classified
      obtain ⟨⟨e, he, hexpr⟩, hknown'⟩ := from_classify hclassify hentry hknown
      cases hevaluate : expr.evaluate s with
      | none => simp [hclassify, hevaluate] at h
      | some drawn =>
        obtain ⟨sample, s''⟩ := drawn
        simp only [hclassify, hevaluate] at h
        refine ih h hrest hknown' ?_
        intro x hx
        rcases Array.mem_push.mp hx with hold | rfl
        · exact hsamples x hold
        · exact ⟨e, he, expr, hexpr, s, s'', hevaluate⟩

/-- **Every sample is one of an entry** of the statement that gives it. -/
theorem Statement.sampleOf_of_run {statement : Statement} {s s' : σ} {samples : List Sample}
    (h : statement.run s = (.ok samples, s')) :
    ∀ x ∈ samples, ∃ e ∈ statement.entries, SampleOf σ statement.evaluates e x := by
  unfold Statement.run at h
  cases hpicks : statement.picks s with
  | none => simp [hpicks] at h
  | some picked =>
    obtain ⟨picks, s''⟩ := picked
    simp only [hpicks] at h
    have hsubset : picks ⊆ statement.entries.toList :=
      fun e he => Array.mem_toList_iff.mpr (Selection.mem_of_mem_select hpicks e he)
    have hnothing : Classified.From [] statement.entries.toList := nofun
    simpa using sampleOf_of_evaluatePicks h hsubset hnothing nofun

end Lots
