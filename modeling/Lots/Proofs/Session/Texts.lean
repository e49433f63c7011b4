import Lots.Program
import Lots.Proofs.Line.Pieces
import Lots.Proofs.Session.Errors
import Lots.Proofs.Statement.Origin

/-!
# Lots — the texts that a session deals with

Texts come into a session from lines and entries; from then on they are cut to pieces, stripped,
given out and added again. The only texts that are made on the way are the values of samples.
What holds of pieces of the given texts and of drawn values is therefore true of every text that
a session deals with.

* **`Text.Inherited`** — a property of given texts, and one of entries that follows from it.
* **`Run.Confined`** — every text of a run has the one or the other: those of samples, those
  that an error is about, and those that are pending afterwards.
* **`confined_runParts`**, **`confined_runLine`** — parts of a line and whole lines, for a
  session whose pending entries have the property of entries.
* **`Program.confined_runLines`** — lines one after the other.
-/

namespace Lots

/-! ## Properties of texts -/

/-- A property `Q` of the texts that a session is given, and a property `P` of its entries. Both
are passed on to the pieces of a text. All values that are drawn may become entries, but those
of texts are no new ones. -/
structure Text.Inherited (σ : Type) [Source σ] (Q P : List Char → Prop) : Prop where
  given : ∀ {s t : List Char}, s <:+: t → Q t → Q s
  entry : ∀ {s : List Char}, Q s → P s
  piece : ∀ {s t : List Char}, s <:+: t → P t → P s
  value : ∀ {expr : Expr} {sample : Sample} {s s' : σ}, expr.evaluate s = some (sample, s') →
    (∀ t, sample ≠ .text t) → P sample.value

/-- The error is about a given text or an entry, if it is about a text. -/
inductive Error.About (Q P : List Char → Prop) : Error → Prop
  | line {sep : Separators} {line : List Char} {fault : Line.Fault} (hline : Q line)
      (hsplit : (Line.split sep line).fault = some fault) : About Q P (.line fault)
  | options {clause : List Char} {cause : Options.Error} (hclause : Q clause)
      (hparse : Options.parse clause = .error cause) : About Q P (.options cause)
  | expression {text : List Char} {cause : Expr.Error} (htext : P text)
      (hparse : Expr.parse text = .error cause) : About Q P (.expression cause)
  | exhausted : About Q P .exhausted

/-- The text of a part, if it has one, is a given one. -/
def Line.Part.Has (Q : List Char → Prop) : Line.Part → Prop
  | .entry text => Q text
  | .options text => Q text
  | .endStmt => True

variable {σ : Type} [Source σ] {Q P : List Char → Prop}

namespace Text.Inherited

theorem part (h : Inherited σ Q P) {part : Line.Part} {line : List Char}
    (hpart : part.Within line) (hline : Q line) : part.Has Q := by
  cases part with
  | entry text => exact h.given hpart hline
  | options text => exact h.given hpart hline
  | endStmt => trivial

/-- The value of a sample of an entry: a text of its own, or the text of the entry. -/
theorem sampleOf (h : Inherited σ Q P) {evaluates : Bool} {entry : Entry} {sample : Sample}
    (hsample : SampleOf σ evaluates entry sample) (hentry : P entry.text) : P sample.value := by
  by_cases htext : ∃ t, sample = .text t
  · -- nothing was drawn: the text is the one that the entry has
    obtain ⟨t, rfl⟩ := htext
    show P t
    rw [hsample.text_eq]
    exact hentry
  · obtain ⟨expr, -, s, s', hevaluate⟩ := hsample
    exact h.value hevaluate fun t ht => htext ⟨t, ht⟩

end Text.Inherited

open Text (Inherited)

namespace Session

/-! ## What is pending -/

/-- The texts of all pending entries have a property. -/
def Holds (P : List Char → Prop) (s : Session σ) : Prop :=
  ∀ e ∈ s.pending, P e.text

/-- All texts that a run deals with have the one property or the other. -/
structure Run.Confined (Q P : List Char → Prop) (run : Run σ) : Prop where
  samples : ∀ ended ∈ run.ended, ∀ x ∈ ended.samples, ∀ t, x = .text t → P t
  error : ∀ failure ∈ run.failure, failure.error.About Q P
  pending : run.state.Holds P

omit [Source σ] in
theorem holds_of_empty {s : Session σ} (h : s.pending = #[]) : s.Holds P := by
  rw [Holds, h]
  nofun

omit [Source σ] in
theorem confined_done {s : Session σ} (hs : s.Holds P) : (Run.done s).Confined Q P :=
  ⟨List.forall_mem_nil _, by rintro failure ⟨⟩, hs⟩

omit [Source σ] in
theorem confined_fail {s : Session σ} (hs : s.Holds P) {error : Error} (herror : error.About Q P) :
    (s.fail error).Confined Q P := by
  unfold fail
  split
  · refine ⟨List.forall_mem_nil _, ?_, holds_of_empty rfl⟩
    rintro failure ⟨⟩
    exact herror
  · refine ⟨List.forall_mem_nil _, ?_, hs⟩
    rintro failure ⟨⟩
    exact herror

omit [Source σ] in
theorem Run.Confined.andThen {run : Run σ} {next : Session σ → Run σ} (h : run.Confined Q P)
    (hnext : ∀ t, t.Holds P → (next t).Confined Q P) : (run.andThen next).Confined Q P := by
  cases hfailure : run.failure with
  | some failure =>
    rw [andThen_of_failure hfailure]
    exact h
  | none =>
    have hmore := hnext run.state h.pending
    rw [andThen_of_ok hfailure]
    exact ⟨List.forall_mem_append.mpr ⟨h.samples, hmore.samples⟩, hmore.error, hmore.pending⟩

section

variable (h : Inherited σ Q P) {s : Session σ} (hs : s.Holds P)
include h hs

theorem holds_add {text : List Char} (htext : P text) : (s.add text).Holds P := by
  by_cases hblank : Text.strip text = []
  · rw [add_of_blank s hblank]
    exact hs
  · rw [add_of_not_blank s hblank]
    intro e he
    rcases Array.mem_push.mp he with hold | rfl
    · exact hs e hold
    · exact h.piece (Text.strip_isInfix text) htext

theorem holds_addValues {samples : List Sample} (hsamples : ∀ x ∈ samples, P x.value) :
    (s.addValues samples).Holds P := by
  unfold addValues
  induction samples generalizing s with
  | nil => exact hs
  | cons sample rest ih =>
    obtain ⟨hfirst, hrest⟩ := List.forall_mem_cons.mp hsamples
    exact ih (holds_add h hs hfirst) hrest

/-! ## Runs -/

/-- Samples are those of the statement's entries, and so is the text of an error. -/
theorem confined_endStatement (options : Options) : (s.endStatement options).Confined Q P := by
  cases hrun : (s.statement options).run s.source with
  | mk outcome source =>
    cases outcome with
    | error error =>
      rw [endStatement_of_error hrun]
      refine ⟨List.forall_mem_nil _, ?_, holds_of_empty rfl⟩
      rintro failure ⟨⟩
      rcases Statement.error_of_run hrun with rfl | ⟨entry, hmem, cause, hparse, rfl⟩
      · exact .exhausted
      · exact .expression (hs entry hmem) hparse
    | ok samples =>
      have hvalues : ∀ x ∈ samples, P x.value := by
        intro x hx
        obtain ⟨entry, hmem, hsample⟩ := Statement.sampleOf_of_run hrun x hx
        exact h.sampleOf hsample (hs entry hmem)
      -- the entries are used up, so what is pending afterwards are values that were pushed
      have hafter : Holds P { s with pending := #[], source } := holds_of_empty rfl
      rw [endStatement_of_ok hrun]
      refine ⟨?_, by rintro failure ⟨⟩, ?_⟩
      · intro ended hended x hx t ht
        obtain rfl := List.mem_singleton.mp hended
        have hvalue := hvalues x hx
        rwa [ht] at hvalue
      · dsimp only
        split
        · exact holds_addValues h hafter hvalues
        · exact hafter

theorem confined_flush : s.flush.Confined Q P := by
  unfold flush
  split
  · exact confined_done hs
  · exact confined_endStatement h hs {}

end

/-- **The texts of a run are those of the parts**, as far as the property goes. Induction over
the parts: each of them fails itself, or hands a session on whose entries have the property. -/
theorem confined_runParts (h : Inherited σ Q P) {fault : Option Line.Fault}
    (hfault : ∀ f, fault = some f → (Error.line f).About Q P) (limit : Option Nat)
    (options : Option Options) (parts : List Line.Part) (s : Session σ) :
    (∀ part ∈ parts, part.Has Q) → s.Holds P →
      (runParts fault limit options parts s).Confined Q P := by
  fun_induction runParts fault limit options parts s with
  | case1 => exact fun _ hs => confined_done hs
  | case2 limit options s hlimit text rest ih =>
    intro hparts hs
    obtain ⟨htext, hrest⟩ := List.forall_mem_cons.mp hparts
    exact ih hrest (holds_add h hs (h.entry htext))
  | case3 limit options s hlimit text rest cause hparse =>
    intro hparts hs
    obtain ⟨htext, -⟩ := List.forall_mem_cons.mp hparts
    exact confined_fail hs (.options htext hparse)
  | case4 limit options s hlimit text rest parsed hparse ih =>
    intro hparts hs
    exact ih (List.forall_mem_cons.mp hparts).2 hs
  | case5 limit options s hlimit rest ih =>
    intro hparts hs
    obtain ⟨-, hrest⟩ := List.forall_mem_cons.mp hparts
    exact (confined_endStatement h hs _).andThen fun t ht => ih t hrest ht
  | case6 limit options s hlimit fault hsome =>
    exact fun _ hs => confined_fail hs (hfault fault hsome)
  | case7 => exact fun _ hs => confined_endStatement h hs _
  | case8 => exact fun _ hs => confined_done hs

theorem confined_runLine (h : Inherited σ Q P) {s : Session σ} (hs : s.Holds P)
    {line : List Char} (hline : Q line) : (s.runLine line).Confined Q P := by
  refine confined_runParts h ?_ none none _ s ?_ hs
  · exact fun f hf => .line hline hf
  · intro part hpart
    exact h.part (Line.within_split line part hpart) hline

end Session

/-! ## Programs -/

theorem Program.confined_runLines (h : Inherited σ Q P) {lines : List (List Char)}
    (hlines : ∀ line ∈ lines, Q line) {s : Session σ} (hs : s.Holds P) :
    (runLines lines s).Confined Q P := by
  induction lines generalizing s with
  | nil => exact Session.confined_done hs
  | cons line rest ih =>
    obtain ⟨hline, hrest⟩ := List.forall_mem_cons.mp hlines
    have hfirst : (runLine line s).Confined Q P :=
      (Session.confined_runLine h hs hline).andThen fun t ht => Session.confined_flush h ht
    exact hfirst.andThen fun t ht => ih hrest ht

end Lots
