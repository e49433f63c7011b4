import Lots.Proofs.Line.Pieces
import Lots.Proofs.Line.Trimming
import Lots.Session
import Lots.Source.Script

/-!
# Lots — entries as they are stored

Two functions trim on the way to a pending entry: the reading of a line trims each slice of it, and
a session strips each text that it adds. They never disagree, since what is trimmed is stripped. So
the entries of a line are pending with the very texts that the line gives, and only an empty text
is no entry.

* **`add_of_stripped`**, **`add_eq_self_iff`** — what a session does with a text.
* **`stripped_of_entry_mem`** — the entries of a line are stripped.
* **`trimmed_entries_stored`** — trimming is a normal form, and entries are stored in it.
-/

namespace Lots

/-- The entries of a line are stripped, those before its fault too. -/
theorem Line.stripped_of_entry_mem {sep : Separators} {line text : List Char}
    (h : .entry text ∈ (split sep line).parts) : Text.Stripped text := by
  cases cut_split line _ h with
  | entry => exact stripped_trim _

namespace Session

variable {σ : Type}

/-- A text that is stripped becomes the youngest entry as it is. -/
theorem add_of_stripped (s : Session σ) {text : List Char} (h : Text.Stripped text)
    (hne : text ≠ []) :
    s.add text =
      { s with pending := s.pending.push ⟨s.nextId, text⟩, nextId := s.nextId + 1 } := by
  have hstrip : Text.strip text = text := Text.strip_eq_self_iff.mpr h
  rw [add_of_not_blank s (by rwa [hstrip]), hstrip]

/-- A session ignores what is blank, and nothing else: anything else takes an id. -/
theorem add_eq_self_iff (s : Session σ) {text : List Char} :
    s.add text = s ↔ Text.strip text = [] := by
  refine ⟨fun h => ?_, add_of_blank s⟩
  by_cases hblank : Text.strip text = []
  · exact hblank
  · have hnext : s.nextId + 1 = s.nextId := by
      simpa [add_of_not_blank s hblank] using congrArg nextId h
    exact absurd hnext (Nat.succ_ne_self _)

open Line

/-- **Entries are stored as they are trimmed.** Trimming is done at once, and what it leaves is
stripped. Quotes come off exactly if the stripped text is one string; then none remains, and else
stripping is all that is done. Of any text without quotes, put between quotes and blanks, the
stripped text remains. So a session ignores an entry of a line exactly if it is empty, and stores
any other as it is. -/
theorem trimmed_entries_stored (σ : Type) :
    (∀ t, trim (trim t) = trim t ∧ Text.Stripped (trim t)) ∧
    (∀ t, ((trim t).count '"' < t.count '"' ↔ OneString (Text.strip t)) ∧
      (OneString (Text.strip t) →
        trim t = Text.strip (inner (Text.strip t)) ∧ '"' ∉ trim t) ∧
      (¬ OneString (Text.strip t) → trim t = Text.strip t)) ∧
    (∀ before text after, (∀ c ∈ before, Text.isBlank c = true) → '"' ∉ text →
      (∀ c ∈ after, Text.isBlank c = true) →
      trim (before ++ quote text ++ after) = Text.strip text) ∧
    ∀ (sep : Separators) (line text : List Char), .entry text ∈ (split sep line).parts →
      ∀ s : Session σ, (s.add text = s ↔ text = []) ∧
        (text ≠ [] → s.add text =
          { s with pending := s.pending.push ⟨s.nextId, text⟩, nextId := s.nextId + 1 }) := by
  refine ⟨fun t => ⟨trim_trim t, stripped_trim t⟩, ?_, ?_, ?_⟩
  · intro t
    refine ⟨count_trim_lt_iff, fun h => ?_, trim_of_not_oneString⟩
    exact ⟨trim_of_oneString h, quote_not_mem_trim h⟩
  · intro before text after hbefore htext hafter
    exact trim_append_quote hbefore htext hafter
  · intro sep line text hmem s
    have hstripped : Text.Stripped text := stripped_of_entry_mem hmem
    refine ⟨?_, s.add_of_stripped hstripped⟩
    rw [add_eq_self_iff, Text.strip_eq_self_iff.mpr hstripped]

/-- A string with blanks inside and outside its quotes is stored without both, and the empty
entry behind it is ignored. -/
theorem trimmed_entries_stored_of_padded_string :
    let line := " \" a;b \"\t,, c".toList
    let s : Session Script := { source := ⟨[]⟩ }
    (split {} line).parts = [.entry "a;b".toList, .entry [], .entry ['c']] ∧
      s.add "a;b".toList = { s with pending := #[⟨0, "a;b".toList⟩], nextId := 1 } ∧
      s.add [] = s := by
  intro line s
  have hparts : (split {} line).parts = [.entry "a;b".toList, .entry [], .entry ['c']] := by
    decide
  obtain ⟨-, -, -, hentries⟩ := trimmed_entries_stored Script
  have hstring := hentries {} line "a;b".toList (by simp [hparts]) s
  have hempty := hentries {} line [] (by simp [hparts]) s
  exact ⟨hparts, hstring.2 (by decide), hempty.1.mpr rfl⟩

end Session

end Lots
