import Lots.Proofs.Line.Derivation
import Lots.Proofs.Session.Gluing

/-!
# Lots — entries carried from line to line

Entries that a line leaves open wait for the next line. So two lines that run one after the
other do what one line does that has an entry separator between them, as long as no options
wait at the end of the first one: options belong to the end of their line.

The parts of the one line may hold an empty entry where the first line ends in a separator or
is empty. Empty entries are never added, so that the number of pending entries, on which the
evaluation of a statement hangs, is the same.

* **`reads_carried`** — behind an entry separator a line begins anew, if no options wait.
* **`runLine_entry`** — an entry separator at the end of a line changes nothing.
* **`runLine_carry`** — lines glued at an entry separator run as if they came one by one.
-/

namespace Lots

namespace Line

open Cursor

variable {sep : Separators}

/-- No options clause is the last part of a line. -/
def Split.NoOptionsLast (split : Split) : Prop :=
  ∀ clause, split.parts.getLast? ≠ some (.options clause)

theorem entry_ne_newline (sep : Separators) : sep.entry ≠ '\n' :=
  ne_newline_of_canSeparate sep.canSeparate_entry

theorem trim_nil : trim [] = [] := rfl

/-- **A line begins anew behind an entry separator** if no options wait there. The parts are
those of the line; where it ends without an open entry, an empty one comes behind them. -/
theorem reads_carried {line : List Char} (hfault : (split sep line).fault = none)
    (hopen : (split sep line).NoOptionsLast) :
    ∃ blanks : List (List Char), (∀ text ∈ blanks, text = []) ∧
      (start 0).Reads sep (line ++ [sep.entry])
        ((split sep line).parts ++ blanks.map Part.entry)
        (start (bytes (line ++ [sep.entry]))) := by
  have hline : '\n' ∉ line := newline_not_mem_of_split hfault
  rw [split_eq_splitFrom hline] at hfault hopen ⊢
  cases hread : (start 0).read sep line with
  | mk parts result =>
    cases result with
    | error fault => simp [splitFrom, hread] at hfault
    | ok last =>
      have hreads : (start 0).Reads sep line parts last := hread
      rw [splitFrom_of_reads hreads] at hfault hopen ⊢
      have hnext : last.skip sep.entry (.slice []) = start (bytes (line ++ [sep.entry])) := by
        simp [skip, start, hreads.offset]
      -- a string or a bracket would be a fault, and a clause the last part
      cases hmode : last.mode with
      | string start nests => simp [Split.after, finish, hmode] at hfault
      | clause =>
        refine absurd ?_ (hopen (Text.strip last.text))
        simp [Split.after, finish, hmode]
      | slice nests =>
        cases nests with
        | cons nest outer => simp [Split.after, finish, hmode] at hfault
        | nil =>
          have hstep : last.step sep sep.entry = _ := step_entry hmode
          rw [hnext] at hstep
          have hall := hreads.append (.char hstep)
          by_cases htaken : last.taken = []
          · refine ⟨[[]], by simp, ?_⟩
            have htext : last.text = [] := by simp [text, htaken]
            rw [htext, trim_nil] at hall
            simpa [Split.after, finish, hmode, htaken] using hall
          · exact ⟨[], by simp, by simpa [Split.after, finish, hmode, htaken] using hall⟩

/-- Where no options wait, a line leaves nothing but entries. -/
theorem settled_of_split {line : List Char} (hfault : (split sep line).fault = none)
    (hopen : (split sep line).NoOptionsLast) : Settled (split sep line).parts := by
  obtain ⟨tree, -, hparts⟩ := exists_tree_of_split hfault
  rw [Split.NoOptionsLast, ← hparts, Tree.parts] at hopen
  rw [← hparts, Tree.parts]
  cases hclause : tree.last.clause with
  | some clause =>
    refine absurd ?_ (hopen (Text.strip clause.val))
    simp [StmtTree.openParts, hclause, clauseParts, ← List.append_assoc]
  | none =>
    obtain ⟨texts, htexts⟩ := openParts_of_no_clause hclause
    exact ⟨_, texts, whole_flatMap_endedParts tree.ended, by rw [htexts]⟩

end Line

namespace Session

variable {σ : Type} [Source σ]

theorem runParts_blanks {blanks : List (List Char)} (h : ∀ text ∈ blanks, text = [])
    (s : Session σ) : runParts none none none (blanks.map Line.Part.entry) s = Run.done s := by
  have hlimit : (none : Option Nat) ≠ some 0 := nofun
  induction blanks with
  | nil => rw [List.map_nil, runParts_nil hlimit]
  | cons text rest ih =>
    obtain ⟨rfl, hrest⟩ := List.forall_mem_cons.mp h
    rw [List.map_cons, runParts_entry hlimit, add_of_blank s rfl, ih hrest]

/-- **An entry separator at the end of a line changes nothing.** -/
theorem runLine_entry {s : Session σ} {line : List Char}
    (hfault : (Line.split s.separators line).fault = none)
    (hopen : (Line.split s.separators line).NoOptionsLast) :
    s.runLine (line ++ [s.separators.entry]) = s.runLine line := by
  have hline : '\n' ∉ line := Line.newline_not_mem_of_split hfault
  have hentry := Line.entry_ne_newline s.separators
  obtain ⟨blanks, hblanks, hreads⟩ := Line.reads_carried hfault hopen
  have hdone : runParts none none none (blanks.map Line.Part.entry) = (Run.done : Session σ → _) :=
    funext (runParts_blanks hblanks)
  calc s.runLine (line ++ [s.separators.entry])
      = runParts none none none
          ((Line.split s.separators line).parts ++ blanks.map Line.Part.entry) s :=
        runLine_of_reads (by simp [hline, hentry.symm]) hreads
    _ = runParts none none none (Line.split s.separators line).parts s := by
        rw [runParts_settled (Line.settled_of_split hfault hopen), hdone, Run.andThen_done]
    _ = s.runLine line := by rw [runLine, runUpTo, hfault]

/-- **Entries carry over.** If a line has no fault and no options wait at its end, a second one
behind it and an entry separator runs as if it came next: after a failure not at all, and else
with the session that the first one leaves, its outputs behind the first one's. Its error is the
same, only that a fault of the line is found further on, by the bytes that stand before. -/
theorem runLine_carry (s : Session σ) {line next : List Char} (hnext : '\n' ∉ next)
    (hfault : (Line.split s.separators line).fault = none)
    (hopen : (Line.split s.separators line).NoOptionsLast) :
    s.runLine (line ++ s.separators.entry :: next) =
      (s.runLine line).andThen fun t =>
        (t.runLine next).moved (String.ofList (line ++ [s.separators.entry])).utf8ByteSize := by
  have hline : '\n' ∉ line := by
    intro hmem
    simp [Line.split, hmem] at hfault
  have hentry := Line.entry_ne_newline s.separators
  have hall : '\n' ∉ line ++ [s.separators.entry] ++ next := by
    simp [hline, hnext, hentry.symm]
  obtain ⟨blanks, hblanks, hreads⟩ := Line.reads_carried hfault hopen
  -- the empty entry, if there is one, stands behind the other entries
  have hsettled : Line.Settled
      ((Line.split s.separators line).parts ++ blanks.map Line.Part.entry) := by
    obtain ⟨whole, texts, hwhole, hparts⟩ := Line.settled_of_split hfault hopen
    exact ⟨whole, texts ++ blanks, hwhole, by simp [hparts]⟩
  have hglued := runLine_append_settled hall hreads hsettled
  rw [runLine_entry hfault hopen, List.append_assoc, List.singleton_append] at hglued
  rw [Line.utf8ByteSize_ofList]
  exact hglued

/-- The first line ends in a separator of its own, so the glued one holds an empty entry. The
one entry is still pending alone and is rolled; the string opens behind eight
bytes of the glued line. -/
theorem runLine_carry_pending_roll :
    let s : Session Script := fresh {} ⟨[3]⟩
    let line := ['é', ';', 'd', '6', ',']
    let next := [';', '"', 'x']
    let t := (s.runLine line).state
    '\n' ∉ next ∧ (Line.split s.separators line).fault = none ∧
      (Line.split s.separators line).NoOptionsLast ∧
      (t.pending = #[⟨1, ['d', '6']⟩] ∧ t.nextId = 2) ∧
      (s.runLine (line ++ ',' :: next)).outputs =
        [[.text ['é']], [.roll ⟨{}, [⟨3, false⟩]⟩]] ∧
      (t.runLine next).failure.map (·.error) = some (.line (.unclosedString 1)) ∧
      (s.runLine (line ++ ',' :: next)).failure.map (·.error) =
        some (.line (.unclosedString 8)) := by
  intro s line next t
  have hnext : '\n' ∉ next := by decide
  have hfault : (Line.split s.separators line).fault = none := by decide
  have hopen : (Line.split s.separators line).NoOptionsLast := by
    have hlast : (Line.split s.separators line).parts.getLast? = some (.entry ['d', '6']) := by
      decide
    intro clause
    rw [hlast]
    nofun
  have hcarry : s.runLine (line ++ ',' :: next) = _ := runLine_carry s hnext hfault hopen
  refine ⟨hnext, hfault, hopen, ?_, ?_, ?_, ?_⟩
  · decide +kernel
  · rw [hcarry]
    decide +kernel
  · decide +kernel
  · rw [hcarry]
    decide +kernel

end Session

end Lots
