import Lots.Proofs.Line.Grammar

/-!
# Lots — how a cursor reads

What one character does to a cursor, mode by mode, and what a whole text does to it.

* **`Cursor.step_cases`** — all that one character can do: a text goes on, or it ends and has
  become a part (`Cursor.Sliced`, `Cursor.Completed`).
* **`Cursor.Reads`** — a cursor reads a text without a fault; runs of it compose
  (`Reads.append`) and come apart at the first character (`Reads.uncons`).
* **`splitFrom_append`** — what follows a reading splits on its own.
* **`reads_balanced`** — a balanced text is read without a part, whatever stands in its
  strings and groups; the cursor only moves over it.
-/

namespace Lots

namespace Nest

/-! ## Brackets -/

theorem mem_reservedChars_of_opening? {c : Char} {nest : Nest} (h : opening? c = some nest) :
    c ∈ reservedChars ∧ c ≠ '"' := by
  unfold opening? at h
  split at h
  · decide
  · decide
  · decide
  · cases h

theorem mem_reservedChars_of_closing? {c : Char} {nest : Nest} (h : closing? c = some nest) :
    c ∈ reservedChars ∧ c ≠ '"' ∧ opening? c = none := by
  unfold closing? at h
  split at h
  · decide
  · decide
  · decide
  · cases h

theorem not_mem_reservedChars {c : Char} (hquote : c ≠ '"') (hopen : opening? c = none)
    (hclose : closing? c = none) : c ∉ reservedChars := by
  intro hmem
  simp only [reservedChars, List.mem_cons, List.not_mem_nil, or_false] at hmem
  rcases hmem with rfl | rfl | rfl | rfl | rfl | rfl | rfl
  · exact hquote rfl
  · cases hopen
  · cases hclose
  · cases hopen
  · cases hclose
  · cases hopen
  · cases hclose

theorem opening?_of_not_reserved {c : Char} (h : c ∉ reservedChars) : opening? c = none := by
  cases hopen : opening? c with
  | none => rfl
  | some nest => exact absurd (mem_reservedChars_of_opening? hopen).1 h

theorem closing?_of_not_reserved {c : Char} (h : c ∉ reservedChars) : closing? c = none := by
  cases hclose : closing? c with
  | none => rfl
  | some nest => exact absurd (mem_reservedChars_of_closing? hclose).1 h

/-- An opening and a closing bracket belong together exactly when the kinds that they
open and close do. -/
theorem closes_iff {a b : Char} :
    Line.Closes a b ↔
      ∃ opener closer, opening? a = some opener ∧ closing? b = some closer ∧
        opener.closedBy closer = true := by
  constructor
  · rintro (⟨rfl | rfl, rfl | rfl⟩ | ⟨rfl, rfl⟩)
    · exact ⟨.paren, .paren, rfl, rfl, rfl⟩
    · exact ⟨.paren, .square, rfl, rfl, rfl⟩
    · exact ⟨.square, .paren, rfl, rfl, rfl⟩
    · exact ⟨.square, .square, rfl, rfl, rfl⟩
    · exact ⟨.curly, .curly, rfl, rfl, rfl⟩
  · rintro ⟨opener, closer, hopen, hclose, hmatch⟩
    -- three kinds against three, of which the mixed ones with curly brackets do not match
    unfold opening? at hopen
    unfold closing? at hclose
    split at hopen <;> cases hopen
    · split at hclose <;> cases hclose
      · exact .inl ⟨.inl rfl, .inl rfl⟩
      · exact .inl ⟨.inl rfl, .inr rfl⟩
      · cases hmatch
    · split at hclose <;> cases hclose
      · exact .inl ⟨.inr rfl, .inl rfl⟩
      · exact .inl ⟨.inr rfl, .inr rfl⟩
      · cases hmatch
    · split at hclose <;> cases hclose
      · cases hmatch
      · cases hmatch
      · exact .inr ⟨rfl, rfl⟩

end Nest

namespace Line

theorem ne_newline_of_canSeparate {c : Char} (h : canSeparate c = true) : c ≠ '\n' := by
  rintro rfl
  revert h
  decide

/-! ## Bytes -/

/-- How many bytes a text takes in UTF-8. -/
def bytes : List Char → Nat
  | [] => 0
  | c :: rest => c.utf8Size + bytes rest

@[simp] theorem bytes_nil : bytes [] = 0 := rfl

@[simp] theorem bytes_cons (c : Char) (s : List Char) :
    bytes (c :: s) = c.utf8Size + bytes s := rfl

@[simp] theorem bytes_append (s t : List Char) : bytes (s ++ t) = bytes s + bytes t := by
  induction s with
  | nil => simp
  | cons c rest ih => simp [ih, Nat.add_assoc]

/-- It is the size of the text as a string. -/
theorem utf8ByteSize_ofList (s : List Char) : (String.ofList s).utf8ByteSize = bytes s := by
  induction s with
  | nil => rfl
  | cons c rest ih =>
    rw [← List.singleton_append, String.ofList_append, String.utf8ByteSize_append, ih,
      ← String.singleton_eq_ofList, String.utf8ByteSize_singleton]
    rfl

namespace Cursor

variable {sep : Separators} {k : Cursor} {c : Char} {nests : List Nest}

/-! ## One character -/

theorem keep_text (k : Cursor) (c : Char) (mode : Mode) :
    (k.keep c mode).text = k.text ++ [c] := by
  simp [keep, text]

theorem skip_text (k : Cursor) (c : Char) (mode : Mode) : (k.skip c mode).text = [] := rfl

theorem step_quote (hmode : k.mode = .slice nests) :
    k.step sep '"' = .ok ([], k.keep '"' (.string k.offset nests)) := by
  simp [step, hmode, stepSlice]

theorem step_opening {opener : Nest} (hmode : k.mode = .slice nests)
    (hopen : Nest.opening? c = some opener) :
    k.step sep c = .ok ([], k.keep c (.slice (opener :: nests))) := by
  have hquote := (Nest.mem_reservedChars_of_opening? hopen).2
  simp [step, hmode, stepSlice, hquote, hopen]

theorem step_closing {closer : Nest} (hmode : k.mode = .slice nests)
    (hclose : Nest.closing? c = some closer) :
    k.step sep c = k.stepClosing c closer nests := by
  obtain ⟨-, hquote, hopen⟩ := Nest.mem_reservedChars_of_closing? hclose
  simp [step, hmode, stepSlice, hquote, hopen, hclose]

theorem step_plain (hmode : k.mode = .slice nests) (hplain : c ∉ reservedChars) :
    k.step sep c =
      if nests.isEmpty then .ok (k.stepOutside sep c) else .ok ([], k.keep c (.slice nests)) := by
  have hquote : c ≠ '"' := fun h => hplain (h ▸ by decide)
  simp [step, hmode, stepSlice, hquote, Nest.opening?_of_not_reserved hplain,
    Nest.closing?_of_not_reserved hplain]

theorem step_string {start : Nat} (hmode : k.mode = .string start nests) :
    k.step sep c =
      .ok ([], k.keep c (if c = '"' then .slice nests else .string start nests)) := by
  simp [step, hmode]

theorem step_clause (hmode : k.mode = .clause) :
    k.step sep c =
      if c = sep.stmt then .ok ([.options (Text.strip k.text), .endStmt], k.skip c (.slice []))
      else .ok ([], k.keep c .clause) := by
  simp [step, hmode]

/-! ## Separators -/

theorem not_mem_reservedChars_of_canSeparate (h : canSeparate c = true) :
    c ∉ reservedChars := by
  simp only [canSeparate, Bool.and_eq_true] at h
  simpa using h.1

theorem step_entry (hmode : k.mode = .slice []) :
    k.step sep sep.entry = .ok ([.entry (trim k.text)], k.skip sep.entry (.slice [])) := by
  rw [step_plain hmode (not_mem_reservedChars_of_canSeparate sep.canSeparate_entry)]
  simp [stepOutside]

theorem step_options (hmode : k.mode = .slice []) :
    k.step sep sep.options = .ok (sliceEntry k.text, k.skip sep.options .clause) := by
  rw [step_plain hmode (not_mem_reservedChars_of_canSeparate sep.canSeparate_options)]
  simp [stepOutside, sep.entry_ne_options.symm]

theorem step_stmt (hmode : k.mode = .slice []) :
    k.step sep sep.stmt = .ok (sliceEntry k.text ++ [.endStmt], k.skip sep.stmt (.slice [])) := by
  rw [step_plain hmode (not_mem_reservedChars_of_canSeparate sep.canSeparate_stmt)]
  simp [stepOutside, sep.stmt_ne_entry, sep.stmt_ne_options]

theorem step_outside (hmode : k.mode = .slice []) (hplain : c ∉ reservedChars)
    (hsep : ¬ sep.Separates c) : k.step sep c = .ok ([], k.keep c (.slice [])) := by
  rw [step_plain hmode hplain]
  have hnone : c ≠ sep.entry ∧ c ≠ sep.options ∧ c ≠ sep.stmt := by
    simpa [Separators.Separates, not_or] using hsep
  simp [stepOutside, hnone]

/-- What a slice becomes where it ends: an entry, or an entry unless it is blank. -/
inductive Sliced (text : List Char) : List Part → Prop
  | entry : Sliced text [.entry (trim text)]
  | unlessBlank : Sliced text (sliceEntry text)

/-- What the text of a statement becomes where it ends: what the slice does, or options. -/
inductive Completed (text : List Char) : List Part → Prop
  | slice {parts : List Part} (hslice : Sliced text parts) : Completed text parts
  | options : Completed text [.options (Text.strip text)]

theorem Sliced.exists_entry {text : List Char} {parts : List Part} (h : Sliced text parts) :
    ∀ part ∈ parts, ∃ entry, part = .entry entry := by
  cases h with
  | entry => simp
  | unlessBlank =>
    unfold sliceEntry
    dsimp only
    split <;> simp

theorem Sliced.endStmt_not_mem {text : List Char} {parts : List Part} (h : Sliced text parts) :
    Part.endStmt ∉ parts := by
  intro hmem
  obtain ⟨entry, hentry⟩ := h.exists_entry _ hmem
  cases hentry

theorem Completed.endStmt_not_mem {text : List Char} {parts : List Part}
    (h : Completed text parts) : Part.endStmt ∉ parts := by
  cases h with
  | slice hslice => exact hslice.endStmt_not_mem
  | options => simp

/-- **What a step can do.** It keeps its character and gives no part, or its character
separates: then a slice or a clause ends and a new text begins. Only a statement separator ends
a clause, and its statement with it. -/
theorem step_cases {parts : List Part} {next : Cursor}
    (h : k.step sep c = .ok (parts, next)) :
    (parts = [] ∧ ∃ mode, next = k.keep c mode) ∨
      (Sliced k.text parts ∧ ∃ mode, next = k.skip c mode) ∨
      (next = k.skip c (.slice []) ∧
        ∃ before, parts = before ++ [.endStmt] ∧ Completed k.text before) := by
  unfold step at h
  split at h
  · next nests _ =>
    -- a slice: quote, opening bracket, closing bracket, or any other character
    unfold stepSlice at h
    split at h
    · cases h
      exact .inl ⟨rfl, _, rfl⟩
    split at h
    · cases h
      exact .inl ⟨rfl, _, rfl⟩
    · unfold stepClosing at h
      split at h
      · cases h
      split at h
      · cases h
        exact .inl ⟨rfl, _, rfl⟩
      · cases h
    · split at h
      · -- outside brackets each separator ends the slice in its own way
        unfold stepOutside at h
        split at h
        · cases h
          exact .inr (.inl ⟨.entry, _, rfl⟩)
        split at h
        · cases h
          exact .inr (.inl ⟨.unlessBlank, _, rfl⟩)
        split at h
        · cases h
          exact .inr (.inr ⟨rfl, _, rfl, .slice .unlessBlank⟩)
        · cases h
          exact .inl ⟨rfl, _, rfl⟩
      · cases h
        exact .inl ⟨rfl, _, rfl⟩
  · cases h
    exact .inl ⟨rfl, _, rfl⟩
  · -- in a clause only the statement separator counts
    split at h
    · cases h
      exact .inr (.inr ⟨rfl, _, rfl, .options⟩)
    · cases h
      exact .inl ⟨rfl, _, rfl⟩

theorem step_offset {parts : List Part} {next : Cursor}
    (h : k.step sep c = .ok (parts, next)) : next.offset = k.offset + c.utf8Size := by
  rcases step_cases h with ⟨-, mode, rfl⟩ | ⟨-, mode, rfl⟩ | ⟨rfl, -⟩
  · rfl
  · rfl
  · rfl

/-! ## Texts -/

/-- The cursor at the start of an entry, behind so many bytes. -/
def start (offset : Nat) : Cursor :=
  { offset }

/-- The cursor behind a text that belongs to the text being read. -/
def past (k : Cursor) (s : List Char) : Cursor :=
  { k with offset := k.offset + bytes s, taken := s.reverse ++ k.taken }

@[simp] theorem past_nil : k.past [] = k := rfl

theorem past_append (s t : List Char) : k.past (s ++ t) = (k.past s).past t := by
  simp [past, Nat.add_assoc]

/-- A character that belongs to the text being read moves the cursor over it. -/
theorem keep_eq_past {mode : Mode} (hmode : k.mode = mode) : k.keep c mode = k.past [c] := by
  subst hmode
  simp [keep, past]

@[simp] theorem past_mode (s : List Char) : (k.past s).mode = k.mode := rfl

theorem past_text (s : List Char) : (k.past s).text = k.text ++ s := by
  simp [past, text]

/-- The cursor reads a text without a fault: these parts, and the cursor behind it. -/
def Reads (sep : Separators) (k : Cursor) (s : List Char) (parts : List Part)
    (next : Cursor) : Prop :=
  k.read sep s = (parts, .ok next)

theorem Reads.nil : k.Reads sep [] [] k := rfl

theorem Reads.cons {mid last : Cursor} {s : List Char} {parts more : List Part}
    (hstep : k.step sep c = .ok (parts, mid)) (hrest : mid.Reads sep s more last) :
    k.Reads sep (c :: s) (parts ++ more) last := by
  unfold Reads at hrest ⊢
  simp only [read, hstep, hrest]

theorem Reads.char {next : Cursor} {parts : List Part}
    (hstep : k.step sep c = .ok (parts, next)) : k.Reads sep [c] parts next := by
  simpa using Reads.cons hstep .nil

theorem Reads.append {mid last : Cursor} {s t : List Char} {parts more : List Part}
    (hs : k.Reads sep s parts mid) (ht : mid.Reads sep t more last) :
    k.Reads sep (s ++ t) (parts ++ more) last := by
  unfold Reads at hs ht ⊢
  rw [read_append, hs]
  simp only [ht]

theorem Reads.uncons {last : Cursor} {s : List Char} {parts : List Part}
    (h : k.Reads sep (c :: s) parts last) :
    ∃ first mid more, k.step sep c = .ok (first, mid) ∧ mid.Reads sep s more last ∧
      parts = first ++ more := by
  unfold Reads at h
  rw [read] at h
  split at h
  · cases h
  · next first mid hstep =>
    refine ⟨first, mid, (mid.read sep s).1, hstep, ?_, ?_⟩
    · unfold Reads
      rw [Prod.mk.injEq] at h
      rw [← h.2]
    · exact (Prod.mk.inj h).1.symm

theorem Reads.offset {last : Cursor} {s : List Char} {parts : List Part}
    (h : k.Reads sep s parts last) : last.offset = k.offset + bytes s := by
  induction s generalizing k parts with
  | nil =>
    cases h
    rfl
  | cons c rest ih =>
    obtain ⟨first, mid, more, hstep, hrest, -⟩ := h.uncons
    rw [ih hrest, step_offset hstep, bytes_cons, Nat.add_assoc]

/-- A reading goes on from where the reading of its first part ends. -/
theorem Reads.rest {mid last : Cursor} {s t : List Char} {parts all : List Part}
    (h : k.Reads sep (s ++ t) all last) (hs : k.Reads sep s parts mid) :
    ∃ more, mid.Reads sep t more last := by
  unfold Reads at h hs
  rw [read_append, hs] at h
  refine ⟨(mid.read sep t).1, ?_⟩
  unfold Reads
  rw [← (Prod.mk.inj h).2]

/-- What a cursor reads is determined. -/
theorem Reads.unique {last last' : Cursor} {s : List Char} {parts parts' : List Part}
    (h : k.Reads sep s parts last) (h' : k.Reads sep s parts' last') :
    parts = parts' ∧ last = last' := by
  unfold Reads at h h'
  rw [h] at h'
  cases h'
  exact ⟨rfl, rfl⟩

/-- What follows a reading splits from the cursor behind it. -/
theorem splitFrom_append {next : Cursor} {s : List Char} {parts : List Part}
    (h : k.Reads sep s parts next) (t : List Char) :
    splitFrom sep k (s ++ t) = (splitFrom sep next t).after parts := by
  unfold Reads at h
  unfold splitFrom
  rw [read_append, h]
  cases hmore : next.read sep t with
  | mk more result =>
    cases result with
    | error fault => simp [hmore, Split.after]
    | ok last => simp [hmore, Split.after]

theorem splitFrom_of_reads {last : Cursor} {s : List Char} {parts : List Part}
    (h : k.Reads sep s parts last) : splitFrom sep k s = last.finish.after parts := by
  have hsplit := splitFrom_append h []
  rw [List.append_nil] at hsplit
  rw [hsplit]
  simp [splitFrom, read, Split.after]

/-! ## Balanced texts -/

/-- A text is moved over if each of its characters is, in the mode of the cursor. -/
theorem reads_past {s : List Char}
    (hstep : ∀ (k' : Cursor) (c : Char), k'.mode = k.mode → c ∈ s →
      k'.step sep c = .ok ([], k'.past [c])) :
    k.Reads sep s [] (k.past s) := by
  induction s generalizing k with
  | nil => exact .nil
  | cons c rest ih =>
    have hfirst : k.step sep c = .ok ([], k.past [c]) := hstep k c rfl (by simp)
    have hrest : (k.past [c]).Reads sep rest [] ((k.past [c]).past rest) := by
      apply ih
      intro k' c' hmode hmem
      exact hstep k' c' hmode (by simp [hmem])
    rw [← past_append] at hrest
    exact .cons hfirst hrest

theorem reads_string {start : Nat} {body : List Char} (hmode : k.mode = .string start nests)
    (hbody : '"' ∉ body) : k.Reads sep body [] (k.past body) := by
  apply reads_past
  intro k' c hmode' hmem
  have hmode' := hmode'.trans hmode
  have hc : c ≠ '"' := fun h => hbody (h ▸ hmem)
  rw [step_string hmode', if_neg hc, keep_eq_past hmode']

theorem reads_clause {body : List Char} (hmode : k.mode = .clause) (hbody : sep.stmt ∉ body) :
    k.Reads sep body [] (k.past body) := by
  apply reads_past
  intro k' c hmode' hmem
  have hmode' := hmode'.trans hmode
  have hc : c ≠ sep.stmt := fun h => hbody (h ▸ hmem)
  rw [step_clause hmode', if_neg hc, keep_eq_past hmode']

/-- **A balanced text is moved over.** Inside a group no separator counts, so there the
cursor must have an open bracket. Induction on the text's derivation. -/
theorem reads_balanced {grouped : Bool} {s : List Char} (hs : Balanced sep grouped s) :
    ∀ (k : Cursor) (nests : List Nest), k.mode = .slice nests →
      (grouped = true → nests ≠ []) → k.Reads sep s [] (k.past s) := by
  induction hs with
  | nil => exact fun _ _ _ _ => .nil
  | @plain grouped c rest hplain hsep _ ih =>
    intro k nests hmode hgroup
    have hstep : k.step sep c = .ok ([], k.past [c]) := by
      rw [step_plain hmode hplain]
      cases nests with
      | nil =>
        -- no bracket is open, so the text is no group and the character does not separate
        have hsep' : ¬ sep.Separates c := hsep.resolve_left fun h => hgroup h rfl
        rw [← step_plain hmode hplain, step_outside hmode hplain hsep', keep_eq_past hmode]
      | cons nest outer => simp [keep_eq_past hmode]
    have hrest := ih (k.past [c]) nests (by simpa using hmode) hgroup
    rw [← past_append] at hrest
    exact .cons hstep hrest
  | @string grouped body rest hbody _ ih =>
    intro k nests hmode hgroup
    -- the opening quote, the body, the closing quote and the rest, one after the other
    let inner := (k.keep '"' (.string k.offset nests)).past body
    have hinner : inner.mode = .string k.offset nests := rfl
    have hclose : inner.Reads sep ('"' :: rest) [] ((inner.keep '"' (.slice nests)).past rest) := by
      have hstep : inner.step sep '"' = .ok ([], inner.keep '"' (.slice nests)) := by
        rw [step_string hinner, if_pos rfl]
      exact .cons hstep (ih _ nests rfl hgroup)
    have hreads := Reads.cons (step_quote hmode) ((reads_string rfl hbody).append hclose)
    simpa [inner, past, keep, hmode, Nat.add_assoc] using hreads
  | @group grouped a b body rest hpair _ _ ihbody ihrest =>
    intro k nests hmode hgroup
    obtain ⟨opener, closer, hopen, hclose, hmatch⟩ := Nest.closes_iff.mp hpair
    let inner := (k.keep a (.slice (opener :: nests))).past body
    have hinner : inner.mode = .slice (opener :: nests) := rfl
    have hrest : inner.Reads sep (b :: rest) [] ((inner.keep b (.slice nests)).past rest) := by
      have hstep : inner.step sep b = .ok ([], inner.keep b (.slice nests)) := by
        rw [step_closing hinner hclose, stepClosing, if_pos hmatch]
      exact .cons hstep (ihrest _ nests rfl hgroup)
    have hbody := ihbody (k.keep a (.slice (opener :: nests))) (opener :: nests) rfl (by simp)
    have hreads := Reads.cons (step_opening hmode hopen) (hbody.append hrest)
    simpa [inner, past, keep, hmode, Nat.add_assoc] using hreads

theorem reads_slice (hmode : k.mode = .slice []) (slice : Slice sep) :
    k.Reads sep slice.val [] (k.past slice.val) :=
  reads_balanced slice.property k [] hmode nofun

end Cursor

end Line

end Lots
