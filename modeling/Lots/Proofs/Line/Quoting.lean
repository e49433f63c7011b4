import Lots.Proofs.Line.Derivation
import Lots.Proofs.Line.Gluing
import Lots.Proofs.Line.Trimming

/-!
# Lots — lines written in quotes

Any text that is something, stripped, and free of quotes and line feeds can be an entry: it is
written between quotes, which hide every separator and every bracket in it. Statements of such
entries, with options or without, make a line that reads back as what was written.

* **`trim_quote`** — of a text between quotes, trimming leaves the text.
* **`Phrase`** — a statement as it is meant; `Phrase.text` writes it, and `Phrase.parts` are its
  parts.
* **`Phrase.tree`** — the statement that the grammar derives from what is written.
* **`split_phrases`** — a line of phrases splits into their parts.
-/

namespace Lots.Line

/-! ## Quotes -/

/-- A text that quotes make an entry of. -/
structure Quotable (text : List Char) : Prop where
  no_quote : '"' ∉ text
  no_newline : '\n' ∉ text
  stripped : Text.Stripped text
  ne_nil : text ≠ []

/-- Quotes come off, and nothing more. -/
theorem trim_quote {text : List Char} (h : Quotable text) : trim (quote text) = text := by
  have htrim : trim ([] ++ quote text ++ []) = Text.strip text :=
    trim_append_quote (List.forall_mem_nil _) h.no_quote (List.forall_mem_nil _)
  rw [List.append_nil, List.nil_append] at htrim
  rw [htrim, Text.strip_eq_self_iff.mpr h.stripped]

/-! ## Phrases -/

/-- A text that an options clause may hold. -/
structure Clausal (sep : Separators) (text : List Char) : Prop where
  no_newline : '\n' ∉ text
  no_stmt : sep.stmt ∉ text
  stripped : Text.Stripped text

/-- The text of an entry to be written. -/
abbrev EntryText : Type :=
  { text : List Char // Quotable text }

/-- The text of options to be written. -/
abbrev OptionsText (sep : Separators) : Type :=
  { text : List Char // Clausal sep text }

/-- A statement as it is meant. -/
structure Phrase (sep : Separators) where
  entries : List EntryText
  options : Option (OptionsText sep)

namespace Phrase

variable {sep : Separators}

/-- The options separator and the text of the options, if there are any. -/
def optionsText : Option (OptionsText sep) → List Char
  | none => []
  | some clause => sep.options :: clause.val

/-- The statement as it is written: the entries in quotes, with the entry separator between
them, the options, and the statement separator. -/
def text (phrase : Phrase sep) : List Char :=
  [sep.entry].intercalate (phrase.entries.map (quote ·.val)) ++ optionsText phrase.options ++
    [sep.stmt]

/-- The parts of the statement. -/
def parts (phrase : Phrase sep) : List Part :=
  phrase.entries.map (.entry ·.val) ++ phrase.options.toList.map (.options ·.val) ++ [.endStmt]

/-! ## The tree of a phrase -/

/-- An entry in quotes is a string. -/
def slice (entry : EntryText) : Slice sep :=
  ⟨quote entry.val, .string entry.property.no_quote .nil⟩

def emptySlice : Slice sep :=
  ⟨[], .nil⟩

/-- What the grammar derives from a phrase; a phrase without entries has an empty slice. -/
def tree (phrase : Phrase sep) : StmtTree sep where
  earlier := phrase.entries.dropLast.map slice
  last := (phrase.entries.getLast?.map slice).getD emptySlice
  clause := phrase.options.map fun clause => ⟨clause.val, clause.property.no_stmt⟩

/-- Before the last of several texts, each has the separator behind it. -/
theorem intercalate_concat (c : Char) (texts : List (List Char)) (last : List Char) :
    [c].intercalate (texts ++ [last]) = texts.flatMap (· ++ [c]) ++ last := by
  induction texts with
  | nil => exact List.intercalate_singleton
  | cons text rest ih =>
    have hne : rest ++ [last] ≠ [] := by simp
    rw [List.cons_append, List.intercalate_cons_of_ne_nil hne, ih]
    simp

theorem clauseText_tree (phrase : Phrase sep) :
    clauseText phrase.tree.clause = optionsText phrase.options := by
  obtain ⟨entries, options⟩ := phrase
  cases options <;> rfl

theorem clauseParts_tree (phrase : Phrase sep) :
    clauseParts phrase.tree.clause = phrase.options.toList.map (.options ·.val) := by
  obtain ⟨entries, options⟩ := phrase
  cases options with
  | none => rfl
  | some clause =>
    have hstrip : Text.strip clause.val = clause.val :=
      Text.strip_eq_self_iff.mpr clause.property.stripped
    simp [tree, clauseParts, hstrip]

theorem tree_text (phrase : Phrase sep) : phrase.tree.text ++ [sep.stmt] = phrase.text := by
  rw [StmtTree.text, clauseText_tree, text]
  rcases List.eq_nil_or_concat phrase.entries with hnil | ⟨front, last, hconcat⟩
  · simp [tree, hnil, slicesText, emptySlice]
  · rw [List.concat_eq_append] at hconcat
    rw [hconcat, List.map_append, List.map_singleton, intercalate_concat]
    simp [tree, hconcat, slicesText, slice, List.flatMap_map]

theorem lastSliceParts_slice (entry : EntryText) :
    lastSliceParts (slice entry : Slice sep) = [.entry entry.val] := by
  have htrim := trim_quote entry.property
  simp [lastSliceParts, slice, htrim, entry.property.ne_nil]

theorem slicesParts_slices (entries : List EntryText) :
    slicesParts (entries.map slice : List (Slice sep)) = entries.map (.entry ·.val) := by
  rw [slicesParts, List.map_map]
  apply List.map_congr_left
  intro entry _
  exact congrArg Part.entry (trim_quote entry.property)

theorem tree_parts (phrase : Phrase sep) : phrase.tree.endedParts = phrase.parts := by
  rw [StmtTree.endedParts, clauseParts_tree, parts]
  rcases List.eq_nil_or_concat phrase.entries with hnil | ⟨front, last, hconcat⟩
  · have hempty : lastSliceParts (emptySlice : Slice sep) = [] := if_pos rfl
    simp [tree, hnil, slicesParts, hempty]
  · simp [tree, hconcat, slicesParts_slices, lastSliceParts_slice]

theorem newline_not_mem_text (phrase : Phrase sep) : '\n' ∉ phrase.text := by
  have hentry := (ne_newline_of_canSeparate sep.canSeparate_entry).symm
  have hoptions := (ne_newline_of_canSeparate sep.canSeparate_options).symm
  have hquoted : ∀ entry : EntryText, '\n' ∉ quote entry.val := by
    intro entry
    simp [quote, entry.property.no_newline]
  have hentries : '\n' ∉ [sep.entry].intercalate (phrase.entries.map (quote ·.val)) := by
    rcases List.eq_nil_or_concat phrase.entries with hnil | ⟨front, last, hconcat⟩
    · simp [hnil]
    · rw [hconcat, List.concat_eq_append, List.map_append, List.map_singleton,
        intercalate_concat]
      simp only [List.mem_append, List.mem_flatMap, List.mem_map, List.mem_singleton]
      rintro (⟨_, ⟨entry, -, rfl⟩, hmem | hmem⟩ | hmem)
      · exact hquoted entry hmem
      · exact hentry hmem
      · exact hquoted last hmem
  have hclause : '\n' ∉ optionsText phrase.options := by
    cases phrase.options with
    | none => exact List.not_mem_nil
    | some clause => simp [optionsText, hoptions, clause.property.no_newline]
  simp only [text, List.mem_append, List.mem_singleton, not_or]
  exact ⟨⟨hentries, hclause⟩, (stmt_ne_newline sep).symm⟩

end Phrase

/-! ## Lines -/

/-- **What is written in quotes reads back.** Whatever the entries and the options hold, a line
of phrases has no fault, and its parts are those of the phrases. -/
theorem split_phrases (sep : Separators) (phrases : List (Phrase sep)) :
    split sep (phrases.flatMap Phrase.text) = ⟨phrases.flatMap Phrase.parts, none⟩ := by
  -- the statement behind the last separator is empty
  let tree : Tree sep := ⟨phrases.map Phrase.tree, ⟨[], Phrase.emptySlice, none⟩⟩
  have htext : tree.text = phrases.flatMap Phrase.text := by
    have hended : stmtsText (phrases.map Phrase.tree) = phrases.flatMap Phrase.text := by
      rw [stmtsText, List.flatMap_map]
      exact congrArg (phrases.flatMap ·) (funext Phrase.tree_text)
    simp [tree, Tree.text, hended, StmtTree.text, slicesText, clauseText, Phrase.emptySlice]
  have hparts : tree.parts = phrases.flatMap Phrase.parts := by
    simp [tree, Tree.parts, List.flatMap_map, Phrase.tree_parts, StmtTree.openParts, slicesParts,
      Phrase.emptySlice]
  have hline : '\n' ∉ tree.text := by
    rw [htext]
    intro hmem
    obtain ⟨phrase, -, hphrase⟩ := List.mem_flatMap.mp hmem
    exact phrase.newline_not_mem_text hphrase
  rw [← htext, ← hparts, split_text tree hline]

/-- Neither the separator nor the brackets in the quotes count. -/
example : split {} "\"a;(\",\"]\"/2r;".toList =
    ⟨[.entry "a;(".toList, .entry "]".toList, .options "2r".toList, .endStmt], none⟩ := by
  decide

end Lots.Line
