import Lots.Proofs.Line.Gluing
import Lots.Proofs.Line.Trimming
import Mathlib.Data.List.Chain

/-!
# Lots — the pieces of a line

What a line says is in the line: a part is a piece of it, trimmed if it is an entry and stripped
if it is an options clause. A cursor never goes back, and trimming takes away from both ends only;
so the text of each part is a piece of the line as well.

* **`Part.Cut`** — what a part of a line is cut from.
* **`Cursor.cut_step`** — one character completes parts from the text before it, and goes on with
  a last piece of that text.
* **`cut_split`** — so it is for all parts of a line.
* **`Part.Within`**, **`within_split`** — the text of a part is a piece of a line.
* **`isChain_split`**, **`endStmt_mem_of_clauses`** — a clause is the last part of its statement,
  which so has one at most.
-/

namespace Lots.Line

variable {sep : Separators} {k : Cursor}

/-- What a part is cut from: an entry and an options clause are pieces of a line, as they are
trimmed and stripped. -/
inductive Part.Cut (line : List Char) : Part → Prop
  | entry {slice : List Char} (hslice : slice <:+: line) : Cut line (.entry (trim slice))
  | options {clause : List Char} (hclause : clause <:+: line) :
      Cut line (.options (Text.strip clause))
  | endStmt : Cut line .endStmt

theorem Part.Cut.mono {part : Part} {s t : List Char} (h : part.Cut s) (hs : s <:+: t) :
    part.Cut t := by
  cases h with
  | entry hslice => exact .entry (hslice.trans hs)
  | options hclause => exact .options (hclause.trans hs)
  | endStmt => exact .endStmt

theorem cut_sliceEntry (s : List Char) : ∀ part ∈ sliceEntry s, part.Cut s := by
  unfold sliceEntry
  dsimp only
  split
  · exact List.forall_mem_nil _
  · exact List.forall_mem_singleton.mpr (.entry List.infix_rfl)

namespace Cursor

theorem Sliced.cut {text : List Char} {parts : List Part} (h : Sliced text parts) :
    ∀ part ∈ parts, part.Cut text := by
  cases h with
  | entry => exact List.forall_mem_singleton.mpr (.entry List.infix_rfl)
  | unlessBlank => exact cut_sliceEntry text

theorem Completed.cut {text : List Char} {parts : List Part} (h : Completed text parts) :
    ∀ part ∈ parts, part.Cut text := by
  cases h with
  | slice hslice => exact hslice.cut
  | options => exact List.forall_mem_singleton.mpr (.options List.infix_rfl)

/-- One character completes parts from the text before it. What is read on begins in this text
or behind it. -/
theorem cut_step {next : Cursor} {c : Char} {parts : List Part}
    (h : k.step sep c = .ok (parts, next)) :
    (∀ part ∈ parts, part.Cut k.text) ∧ next.text <:+ k.text ++ [c] := by
  rcases step_cases h with ⟨rfl, mode, rfl⟩ | ⟨hdone, mode, rfl⟩ | ⟨rfl, before, rfl, hdone⟩
  · exact ⟨List.forall_mem_nil _, [], keep_text k c mode⟩
  · exact ⟨hdone.cut, List.nil_suffix⟩
  · refine ⟨List.forall_mem_append.mpr ⟨hdone.cut, ?_⟩, List.nil_suffix⟩
    exact List.forall_mem_singleton.mpr .endStmt

theorem cut_finish : ∀ part ∈ k.finish.parts, part.Cut k.text := by
  unfold finish
  split
  · dsimp only
    split
    · exact List.forall_mem_nil _
    · exact List.forall_mem_singleton.mpr (.entry List.infix_rfl)
  · exact List.forall_mem_nil _
  · exact List.forall_mem_nil _
  · exact List.forall_mem_singleton.mpr (.options List.infix_rfl)

end Cursor

/-- Induction on what is still to be read: the text that the cursor holds is in front of it. -/
theorem cut_splitFrom (k : Cursor) (s : List Char) :
    ∀ part ∈ (splitFrom sep k s).parts, part.Cut (k.text ++ s) := by
  induction s generalizing k with
  | nil =>
    intro part hpart
    rw [List.append_nil]
    refine Cursor.cut_finish part ?_
    simpa [splitFrom, Cursor.read, Split.after] using hpart
  | cons c rest ih =>
    intro part hpart
    cases hstep : k.step sep c with
    | error fault =>
      rw [splitFrom_cons_of_error hstep] at hpart
      cases hpart
    | ok stepped =>
      obtain ⟨parts, next⟩ := stepped
      obtain ⟨hparts, hnext⟩ := Cursor.cut_step hstep
      rw [splitFrom_cons_of_ok hstep] at hpart
      rcases List.mem_append.mp hpart with hpart | hpart
      · exact (hparts part hpart).mono (List.prefix_append _ _).isInfix
      · have hrest : next.text ++ rest <:+: k.text ++ c :: rest := by
          obtain ⟨before, hbefore⟩ := hnext
          refine ⟨before, [], ?_⟩
          rw [List.append_nil, ← List.append_assoc, hbefore, List.append_assoc]
          rfl
        exact (ih next part hpart).mono hrest

/-- **The parts are cut from the line.** -/
theorem cut_split (line : List Char) : ∀ part ∈ (split sep line).parts, part.Cut line := by
  unfold split
  split
  · exact List.forall_mem_nil _
  · exact cut_splitFrom {} line

/-! ## Texts -/

/-- The text of a part, if it has one, is a piece of a line. -/
def Part.Within (line : List Char) : Part → Prop
  | .entry text => text <:+: line
  | .options text => text <:+: line
  | .endStmt => True

/-- Trimming and stripping leave a piece of what they are given. -/
theorem Part.Cut.within {part : Part} {line : List Char} (h : part.Cut line) :
    part.Within line := by
  cases h with
  | entry hslice => exact (trim_isInfix _).trans hslice
  | options hclause => exact (Text.strip_isInfix _).trans hclause
  | endStmt => trivial

/-- **The texts of parts are pieces of the line.** -/
theorem within_split (line : List Char) : ∀ part ∈ (split sep line).parts, part.Within line :=
  fun part hpart => (cut_split line part hpart).within

/-! ## Clauses -/

/-- Which part may stand in front of another: behind an options clause only the end of its
statement may. -/
def Part.MayPrecede (part next : Part) : Prop :=
  ∀ text, part = .options text → next = .endStmt

theorem isChain_append_of_no_options {parts more : List Part}
    (hparts : ∀ part ∈ parts, ∀ text, part ≠ .options text)
    (hmore : more.IsChain Part.MayPrecede) : (parts ++ more).IsChain Part.MayPrecede := by
  induction parts with
  | nil => exact hmore
  | cons part rest ih =>
    obtain ⟨hpart, hrest⟩ := List.forall_mem_cons.mp hparts
    exact List.isChain_cons.mpr ⟨fun _ _ text h => absurd h (hpart text), ih hrest⟩

namespace Cursor

/-- What a slice becomes is no options clause. -/
theorem Sliced.ne_options {text : List Char} {parts : List Part} (h : Sliced text parts) :
    ∀ part ∈ parts, ∀ clause, part ≠ .options clause := by
  rintro part hpart clause rfl
  obtain ⟨entry, hentry⟩ := h.exists_entry _ hpart
  cases hentry

/-- A character that completes a clause ends its statement too. -/
theorem isChain_step {next : Cursor} {c : Char} {parts more : List Part}
    (h : k.step sep c = .ok (parts, next)) (hmore : more.IsChain Part.MayPrecede) :
    (parts ++ more).IsChain Part.MayPrecede := by
  rcases step_cases h with ⟨rfl, -⟩ | ⟨hslice, -⟩ | ⟨-, before, rfl, hdone⟩
  · exact hmore
  · exact isChain_append_of_no_options hslice.ne_options hmore
  · have hend : ∀ part ∈ [Part.endStmt], ∀ text, part ≠ .options text := by simp
    have hended : ([Part.endStmt] ++ more).IsChain Part.MayPrecede :=
      isChain_append_of_no_options hend hmore
    rw [List.append_assoc]
    cases hdone with
    | slice hslice => exact isChain_append_of_no_options hslice.ne_options hended
    | options => exact List.isChain_cons.mpr ⟨by simp [Part.MayPrecede], hended⟩

theorem isChain_finish : k.finish.parts.IsChain Part.MayPrecede := by
  unfold finish
  split
  · dsimp only
    split
    · exact .nil
    · exact .singleton _
  · exact .nil
  · exact .nil
  · exact .singleton _

end Cursor

theorem isChain_splitFrom (k : Cursor) (s : List Char) :
    (splitFrom sep k s).parts.IsChain Part.MayPrecede := by
  induction s generalizing k with
  | nil => simpa [splitFrom, Cursor.read, Split.after] using Cursor.isChain_finish
  | cons c rest ih =>
    cases hstep : k.step sep c with
    | error fault =>
      rw [splitFrom_cons_of_error hstep]
      exact .nil
    | ok stepped =>
      obtain ⟨parts, next⟩ := stepped
      rw [splitFrom_cons_of_ok hstep]
      exact Cursor.isChain_step hstep (ih next)

/-- **A clause ends its statement.** The part behind an options clause, if there is one, is the
end of the statement, in lines with a fault too. -/
theorem isChain_split (line : List Char) :
    (split sep line).parts.IsChain Part.MayPrecede := by
  unfold split
  split
  · exact .nil
  · exact isChain_splitFrom {} line

/-- **No statement has two options clauses**: a statement ends between any two of a line. -/
theorem endStmt_mem_of_clauses {line first second : List Char} {before between after : List Part}
    (h : (split sep line).parts =
      before ++ .options first :: (between ++ .options second :: after)) :
    Part.endStmt ∈ between := by
  have hchain : (split sep line).parts.IsChain Part.MayPrecede := isChain_split line
  rw [h] at hchain
  obtain ⟨hnext, -⟩ := List.isChain_cons.mp hchain.right_of_append
  cases between with
  | nil => cases hnext _ rfl first rfl
  | cons part rest =>
    obtain rfl := hnext _ rfl first rfl
    exact List.mem_cons_self

end Lots.Line
