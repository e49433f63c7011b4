import Lots.Proofs.Line.Derivation
import Lots.Proofs.Line.Gluing

/-!
# Lots — where a line cannot be read further

The fault of a line is that of the first place where the scan of the line cannot go on. Where
this place is, and what is wrong there, is said by the grammar of what stands before it, without
a cursor.

* **`Before`** — what stands before a place in an entry, outside strings: statements and slices
  that have ended, and a slice in which some brackets are open.
* **`FailsAt`** — the scan cannot go on at a place: a string opens there and is never closed, or
  a bracket closes there that is not open or another one than is open, or the line ends there and
  a bracket is open.
* **`FailsAt.split_eq`** — completeness: such a place is where splitting stops, with this fault.
* **`exists_failsAt`** — soundness: splitting stops at such places only.
* **`Before.exists_continuation`** — what stands before such a place is not at fault: some line
  without a fault begins with it.
* **`fault_located`** — all together. Only what stands before a closing bracket matters to its
  fault, so whatever is written behind the line leaves it as it is.
-/

namespace Lots.Line

variable {sep : Separators}

open Cursor

/-! ## Places of faults -/

/-- What stands before a place of a line in an entry, outside strings: statements and slices that
have ended, which have these parts, and a slice with brackets of these kinds open, innermost
first. -/
def Before (sep : Separators) (nests : List Nest) (parts : List Part) (s : List Char) : Prop :=
  ∃ (front : Front sep) (slice : List Char),
    Opened sep nests slice ∧ s = front.text ++ slice ∧ parts = front.parts

/-- How many bytes of a line stand before its character of this index. -/
def byteOffset (line : List Char) (i : Nat) : Nat :=
  (String.ofList (line.take i)).utf8ByteSize

/-- The scan of a line comes to the character of this index, or to the end, with these parts
behind it, and cannot go on for this fault. -/
inductive FailsAt (sep : Separators) (line : List Char) (i : Nat) (parts : List Part) :
    Fault → Prop where
  /-- A string opens here, and no quote follows that would close it. -/
  | string {nests : List Nest} {body : List Char} (hbefore : Before sep nests parts (line.take i))
      (hopen : line.drop i = '"' :: body) (hbody : '"' ∉ body) :
      FailsAt sep line i parts (.unclosedString (byteOffset line i))
  /-- A bracket closes here, and none is open. -/
  | stray {c : Char} {rest : List Char} {closer : Nest}
      (hbefore : Before sep [] parts (line.take i)) (hclose : line.drop i = c :: rest)
      (hcloser : Nest.closing? c = some closer) :
      FailsAt sep line i parts (.unbalanced (byteOffset line i) closer)
  /-- A bracket closes here, and the innermost one that is open is another one. -/
  | mismatch {opener closer : Nest} {outer : List Nest} {c : Char} {rest : List Char}
      (hbefore : Before sep (opener :: outer) parts (line.take i))
      (hclose : line.drop i = c :: rest) (hcloser : Nest.closing? c = some closer)
      (hmatch : opener.closedBy closer = false) :
      FailsAt sep line i parts (.unbalanced (byteOffset line i) opener)
  /-- The line ends here, and this bracket is the innermost one that is open. -/
  | unclosed {opener : Nest} {outer : List Nest}
      (hbefore : Before sep (opener :: outer) parts (line.take i)) (hend : i = line.length) :
      FailsAt sep line i parts (.unbalanced (byteOffset line i) opener)

variable {line : List Char} {i : Nat} {parts : List Part} {fault : Fault}

theorem byteOffset_eq (line : List Char) (i : Nat) : byteOffset line i = bytes (line.take i) :=
  utf8ByteSize_ofList _

theorem bytes_pos {s : List Char} (h : s ≠ []) : 0 < bytes s := by
  obtain ⟨c, rest, rfl⟩ := List.exists_cons_of_ne_nil h
  have hsize := c.utf8Size_pos
  rw [bytes_cons]
  omega

/-- Places further on have more bytes before them. -/
theorem byteOffset_lt {j : Nat} (hij : i < j) (hj : j ≤ line.length) :
    byteOffset line i < byteOffset line j := by
  have hsplit : line.take j = line.take i ++ (line.drop i).take (j - i) := by
    rw [← List.take_add, Nat.add_sub_cancel' (Nat.le_of_lt hij)]
  have hbetween : (line.drop i).take (j - i) ≠ [] := by
    intro hnil
    have hlength := congrArg List.length hnil
    simp only [List.length_take, List.length_drop, List.length_nil] at hlength
    omega
  have hpos := bytes_pos hbetween
  rw [byteOffset_eq, byteOffset_eq, hsplit, bytes_append]
  omega

theorem FailsAt.le_length (h : FailsAt sep line i parts fault) : i ≤ line.length := by
  have hlt : ∀ {c : Char} {rest : List Char}, line.drop i = c :: rest → i ≤ line.length := by
    intro c rest hdrop
    have hlength := congrArg List.length hdrop
    simp only [List.length_drop, List.length_cons] at hlength
    omega
  cases h with
  | string _ hopen _ => exact hlt hopen
  | stray _ hclose _ => exact hlt hclose
  | mismatch _ hclose _ _ => exact hlt hclose
  | unclosed _ hend => exact Nat.le_of_eq hend

theorem FailsAt.offset (h : FailsAt sep line i parts fault) :
    fault.offset? = some (byteOffset line i) := by
  cases h with
  | string | stray | mismatch | unclosed => rfl

/-! ## Completeness -/

/-- What has ended is read, and an entry begins behind it. -/
theorem reads_front (front : Front sep) :
    (start 0).Reads sep front.text front.parts (start (bytes front.text)) := by
  have hreads := (reads_stmts front.ended 0).append (reads_slices front.earlier _)
  rw [Nat.zero_add, ← bytes_append] at hreads
  exact hreads

/-- A slice with open brackets is moved over, and the cursor has them open behind it. Induction on
the brackets, from the outermost one. -/
theorem reads_opened {nests : List Nest} {s : List Char} (h : Opened sep nests s) (n : Nat) :
    ∃ k, (start n).Reads sep s [] k ∧ k.mode = .slice nests := by
  induction h with
  | slice hs => exact ⟨_, reads_balanced hs _ [] rfl nofun, rfl⟩
  | @group nests s body a opener _ hopen hbody ih =>
    obtain ⟨k, hreads, hmode⟩ := ih
    let inner := k.keep a (.slice (opener :: nests))
    have hinner : inner.Reads sep body [] (inner.past body) :=
      reads_balanced hbody inner (opener :: nests) rfl (by simp)
    exact ⟨_, hreads.append (.cons (step_opening hmode hopen) hinner), rfl⟩

theorem Before.reads {nests : List Nest} {s : List Char} (h : Before sep nests parts s) :
    ∃ k, (start 0).Reads sep s parts k ∧ k.mode = .slice nests ∧ k.offset = bytes s := by
  obtain ⟨front, slice, hopen, rfl, rfl⟩ := h
  obtain ⟨k, hslice, hmode⟩ := reads_opened hopen (bytes front.text)
  have hreads := (reads_front front).append hslice
  rw [List.append_nil] at hreads
  refine ⟨k, hreads, hmode, ?_⟩
  rw [hreads.offset]
  exact Nat.zero_add _

/-- A string that is not closed is the fault of what it opens. -/
theorem splitFrom_unclosed {k : Cursor} {nests : List Nest} {body : List Char}
    (hmode : k.mode = .slice nests) (hbody : '"' ∉ body) :
    splitFrom sep k ('"' :: body) = ⟨[], some (.unclosedString k.offset)⟩ := by
  rw [splitFrom_cons_of_ok (step_quote hmode), splitFrom_of_reads (reads_string rfl hbody)]
  rfl

/-- **Completeness.** Where the scan of a line cannot go on, splitting stops. -/
theorem FailsAt.split_eq (h : FailsAt sep line i parts fault) (hline : '\n' ∉ line) :
    split sep line = ⟨parts, some fault⟩ := by
  -- the line splits as what is left of it does, behind the parts before the place
  have hrest : ∀ {nests : List Nest}, Before sep nests parts (line.take i) →
      ∃ k, k.mode = .slice nests ∧ k.offset = byteOffset line i ∧
        split sep line = (splitFrom sep k (line.drop i)).after parts := by
    intro nests hbefore
    obtain ⟨k, hreads, hmode, hoffset⟩ := hbefore.reads
    refine ⟨k, hmode, hoffset.trans (byteOffset_eq line i).symm, ?_⟩
    rw [split_eq_splitFrom hline, ← splitFrom_append hreads, List.take_append_drop]
  cases h with
  | string hbefore hopen hbody =>
    obtain ⟨k, hmode, hoffset, hsplit⟩ := hrest hbefore
    rw [hsplit, hopen, splitFrom_unclosed hmode hbody, hoffset]
    simp [Split.after]
  | stray hbefore hclose hcloser =>
    obtain ⟨k, hmode, hoffset, hsplit⟩ := hrest hbefore
    rw [hsplit, hclose, splitFrom_cons_of_error (step_closing hmode hcloser), hoffset]
    simp [Split.after]
  | @mismatch opener closer outer c rest hbefore hclose hcloser hmatch =>
    obtain ⟨k, hmode, hoffset, hsplit⟩ := hrest hbefore
    have hstep : k.step sep c = .error (.unbalanced k.offset opener) := by
      rw [step_closing hmode hcloser, stepClosing, hmatch]
      rfl
    rw [hsplit, hclose, splitFrom_cons_of_error hstep, hoffset]
    simp [Split.after]
  | unclosed hbefore hend =>
    obtain ⟨k, hmode, hoffset, hsplit⟩ := hrest hbefore
    rw [hsplit, hend, List.drop_length, splitFrom_of_reads .nil, ← hend, ← hoffset]
    simp [Split.after, finish, hmode]

/-! ## Soundness -/

/-- A reading that stops does so at a character. -/
theorem exists_step_error {k : Cursor} {s : List Char}
    (h : k.read sep s = (parts, .error fault)) :
    ∃ before c rest mid, s = before ++ c :: rest ∧ k.Reads sep before parts mid ∧
      mid.step sep c = .error fault := by
  induction s generalizing k parts with
  | nil => cases h
  | cons c s ih =>
    rw [Cursor.read] at h
    split at h
    · next hstep =>
      cases h
      exact ⟨[], c, s, k, rfl, .nil, hstep⟩
    · next first next hstep =>
      have hread : next.read sep s = ((next.read sep s).1, .error fault) := by
        rw [← (Prod.mk.inj h).2]
      obtain ⟨before, d, rest, mid, rfl, hreads, herror⟩ := ih hread
      refine ⟨c :: before, d, rest, mid, rfl, ?_, herror⟩
      rw [← (Prod.mk.inj h).1]
      exact .cons hstep hreads

/-- Only a closing bracket stops a cursor. -/
theorem closing_of_step_error {k : Cursor} {c : Char} (h : k.step sep c = .error fault) :
    ∃ nests closer, k.mode = .slice nests ∧ Nest.closing? c = some closer ∧
      k.stepClosing c closer nests = .error fault := by
  unfold step at h
  split at h
  · next nests hmode =>
    unfold stepSlice at h
    split at h
    · cases h
    split at h
    · cases h
    · next closer _ hcloser => exact ⟨nests, closer, hmode, hcloser, h⟩
    · split at h
      · cases h
      · cases h
  · cases h
  · split at h
    · cases h
    · cases h

theorem stepOutside_mode_ne (k : Cursor) (c : Char) (start : Nat) (nests : List Nest) :
    (k.stepOutside sep c).2.mode ≠ .string start nests := by
  unfold stepOutside
  repeat' split
  all_goals nofun

theorem mode_ne_of_stepClosing {k next : Cursor} {c : Char} {closer : Nest} {opened : List Nest}
    (h : k.stepClosing c closer opened = .ok (parts, next)) (start : Nat) (nests : List Nest) :
    next.mode ≠ .string start nests := by
  unfold stepClosing at h
  split at h
  · cases h
  split at h
  · cases h
    nofun
  · cases h

/-- A cursor is in a string from the quote that opens it on, and as long as no quote follows. -/
theorem string_of_step {k next : Cursor} {c : Char} {start : Nat} {nests : List Nest}
    (h : k.step sep c = .ok (parts, next)) (hnext : next.mode = .string start nests) :
    parts = [] ∧ ((k.mode = .slice nests ∧ c = '"' ∧ k.offset = start) ∨
      (k.mode = .string start nests ∧ c ≠ '"')) := by
  unfold step at h
  split at h
  · next opened hmode =>
    unfold stepSlice at h
    split at h
    · next hquote =>
      cases h
      cases hnext
      exact ⟨rfl, .inl ⟨hmode, hquote, rfl⟩⟩
    -- nothing but a quote leads from a slice into a string
    split at h
    · cases h
      cases hnext
    · exact absurd hnext (mode_ne_of_stepClosing h start nests)
    · split at h
      · rw [← (Prod.mk.inj (Except.ok.inj h)).2] at hnext
        exact absurd hnext (stepOutside_mode_ne k c start nests)
      · cases h
        cases hnext
  · next hmode =>
    cases h
    by_cases hquote : c = '"'
    · simp [keep, hquote] at hnext
    · simp only [keep, if_neg hquote] at hnext
      exact ⟨rfl, .inr ⟨hmode.trans hnext, hquote⟩⟩
  · split at h
    · cases h
      cases hnext
    · cases h
      cases hnext

/-- The quote that opened the string a cursor is in. Induction on what is read: the string was open
from the start, or a quote opens it further on. -/
theorem exists_opening_quote {k last : Cursor} {s : List Char} {start : Nat} {nests : List Nest}
    (h : k.Reads sep s parts last) (hmode : last.mode = .string start nests) :
    (k.mode = .string start nests ∧ '"' ∉ s ∧ parts = []) ∨
      ∃ before body mid, s = before ++ '"' :: body ∧ '"' ∉ body ∧ k.Reads sep before parts mid ∧
        mid.mode = .slice nests ∧ mid.offset = start := by
  induction s generalizing k parts with
  | nil =>
    obtain ⟨rfl, rfl⟩ := h.unique .nil
    exact .inl ⟨hmode, by simp, rfl⟩
  | cons c s ih =>
    obtain ⟨first, next, more, hstep, hrest, rfl⟩ := h.uncons
    rcases ih hrest with ⟨hnext, hs, rfl⟩ | ⟨before, body, mid, rfl, hbody, hbefore, hmid⟩
    · obtain ⟨rfl, ⟨hslice, rfl, hoffset⟩ | ⟨hstring, hc⟩⟩ := string_of_step hstep hnext
      · exact .inr ⟨[], s, k, rfl, hs, .nil, hslice, hoffset⟩
      · exact .inl ⟨hstring, by simp [hs, Ne.symm hc], rfl⟩
    · exact .inr ⟨c :: before, body, mid, rfl, hbody, .cons hstep hbefore, hmid⟩

/-- A cursor in a slice has behind it what the grammar derives. -/
theorem before_of_reads {k : Cursor} {s : List Char} {nests : List Nest}
    (h : (start 0).Reads sep s parts k) (hmode : k.mode = .slice nests) :
    Before sep nests parts s := by
  cases (derived_start 0).reads h with
  | slice front opened hmode' hopen hline hparts =>
    rw [hmode] at hmode'
    cases hmode'
    exact ⟨front, k.text, hopen, hline, hparts⟩
  | string front opened start s body hmode' =>
    rw [hmode] at hmode'
    cases hmode'
  | clause front last hmode' =>
    rw [hmode] at hmode'
    cases hmode'

theorem offset_of_reads {k : Cursor} {s rest : List Char} (h : (start 0).Reads sep s parts k) :
    k.offset = byteOffset (s ++ rest) s.length := by
  rw [h.offset, byteOffset_eq, List.take_left]
  exact Nat.zero_add _

/-- A reading that stops does so where a bracket closes. -/
theorem failsAt_of_read_error (h : (start 0).read sep line = (parts, .error fault)) :
    ∃ i, FailsAt sep line i parts fault := by
  obtain ⟨before, c, rest, mid, rfl, hreads, hstep⟩ := exists_step_error h
  obtain ⟨nests, closer, hmode, hcloser, hclosing⟩ := closing_of_step_error hstep
  have hoffset : mid.offset = byteOffset (before ++ c :: rest) before.length :=
    offset_of_reads hreads
  have hbefore : Before sep nests parts ((before ++ c :: rest).take before.length) := by
    rw [List.take_left]
    exact before_of_reads hreads hmode
  refine ⟨before.length, ?_⟩
  cases nests with
  | nil =>
    cases hclosing
    rw [hoffset]
    exact .stray hbefore List.drop_left hcloser
  | cons opener outer =>
    rw [stepClosing] at hclosing
    split at hclosing
    · cases hclosing
    · next hmatch =>
      cases hclosing
      rw [hoffset]
      exact .mismatch hbefore List.drop_left hcloser (Bool.eq_false_iff.mpr hmatch)

/-- A line that is read to its end is at fault there, or where a string opens that is still
open. -/
theorem failsAt_of_finish {last : Cursor} (h : (start 0).Reads sep line parts last)
    (hfault : last.finish.fault = some fault) :
    ∃ i, FailsAt sep line i (last.finish.after parts).parts fault := by
  cases hmode : last.mode with
  | slice nests =>
    cases nests with
    | nil => simp [finish, hmode] at hfault
    | cons opener outer =>
      have hoffset := @offset_of_reads _ _ _ _ [] h
      have hbefore : Before sep (opener :: outer) parts (line.take line.length) := by
        rw [List.take_length]
        exact before_of_reads h hmode
      simp only [finish, hmode, Option.some.injEq, Split.after, List.append_nil] at hfault ⊢
      rw [← hfault, hoffset, List.append_nil]
      exact ⟨line.length, .unclosed hbefore rfl⟩
  | string first nests =>
    simp only [finish, hmode, Option.some.injEq, Split.after, List.append_nil] at hfault ⊢
    rcases exists_opening_quote h hmode with ⟨hstart, -⟩ | ⟨s, body, mid, rfl, hbody, hreads, hmid⟩
    · cases hstart
    · have hbefore : Before sep nests parts ((s ++ '"' :: body).take s.length) := by
        rw [List.take_left]
        exact before_of_reads hreads hmid.1
      rw [← hfault, ← hmid.2, offset_of_reads hreads]
      exact ⟨s.length, .string hbefore List.drop_left hbody⟩
  | clause => simp [finish, hmode] at hfault

/-- **Soundness.** Where splitting stops, the scan of the line cannot go on. -/
theorem exists_failsAt (hline : '\n' ∉ line) (h : (split sep line).fault = some fault) :
    ∃ i, FailsAt sep line i (split sep line).parts fault := by
  rw [split_eq_splitFrom hline] at h ⊢
  cases hread : (start 0).read sep line with
  | mk parts result =>
    cases result with
    | error stop =>
      have hsplit : splitFrom sep (start 0) line = ⟨parts, some stop⟩ := by
        simp [splitFrom, hread]
      rw [hsplit] at h ⊢
      cases h
      exact failsAt_of_read_error hread
    | ok last =>
      rw [splitFrom_of_reads hread] at h ⊢
      exact failsAt_of_finish hread h

/-! ## Continuations -/

theorem exists_closing (opener : Nest) :
    ∃ c closer, Nest.closing? c = some closer ∧ opener.closedBy closer = true := by
  cases opener with
  | paren => exact ⟨')', .paren, rfl, rfl⟩
  | square => exact ⟨']', .square, rfl, rfl⟩
  | curly => exact ⟨'}', .curly, rfl, rfl⟩

/-- All open brackets can be closed, innermost first. -/
theorem Opened.exists_balanced {nests : List Nest} {s : List Char} (h : Opened sep nests s) :
    ∃ rest, '\n' ∉ rest ∧ Balanced sep false (s ++ rest) := by
  induction nests generalizing s with
  | nil => exact ⟨[], by simp, by simpa using h.balanced⟩
  | cons opener outer ih =>
    obtain ⟨c, closer, hcloser, hmatch⟩ := exists_closing opener
    obtain ⟨rest, hrest, hbalanced⟩ := ih (h.close hcloser hmatch)
    have hc : c ≠ '\n' := by
      rintro rfl
      cases hcloser
    refine ⟨c :: rest, by simp [hrest, Ne.symm hc], ?_⟩
    simpa using hbalanced

/-- What stands before a place in an entry is the beginning of a line without a fault. -/
theorem Before.exists_continuation {nests : List Nest} {s : List Char}
    (h : Before sep nests parts s) (hs : '\n' ∉ s) :
    ∃ rest, (split sep (s ++ rest)).fault = none := by
  obtain ⟨front, slice, hopen, rfl, -⟩ := h
  obtain ⟨rest, hrest, hbalanced⟩ := hopen.exists_balanced
  let tree := front.close ⟨slice ++ rest, hbalanced⟩ none
  have htext : tree.text = front.text ++ slice ++ rest := by
    simp [tree, Front.close, Front.text, Tree.text, StmtTree.text, clauseText]
  have hline : '\n' ∉ tree.text := by
    rw [htext]
    simp_all
  refine ⟨rest, ?_⟩
  rw [← htext, split_text tree hline]

theorem FailsAt.before (h : FailsAt sep line i parts fault) :
    ∃ nests, Before sep nests parts (line.take i) := by
  cases h with
  | string hbefore | stray hbefore | mismatch hbefore | unclosed hbefore => exact ⟨_, hbefore⟩

/-! ## Faults of a line -/

/-- A line has one place where its scan cannot go on. -/
theorem FailsAt.unique {j : Nat} {others : List Part} {other : Fault}
    (h : FailsAt sep line i parts fault) (h' : FailsAt sep line j others other)
    (hline : '\n' ∉ line) : i = j := by
  have hsplit := h'.split_eq hline
  rw [h.split_eq hline] at hsplit
  cases hsplit
  have hoffset : byteOffset line i = byteOffset line j :=
    Option.some.inj (h.offset.symm.trans h'.offset)
  rcases Nat.lt_trichotomy i j with hlt | heq | hlt
  · exact absurd hoffset (Nat.ne_of_lt (byteOffset_lt hlt h'.le_length))
  · exact heq
  · exact absurd hoffset (Nat.ne_of_gt (byteOffset_lt hlt h.le_length))

/-- The fault of a closing bracket stays whatever is written behind the line. -/
theorem FailsAt.append {offset : Nat} {nest : Nest}
    (h : FailsAt sep line i parts (.unbalanced offset nest))
    (hoffset : offset < (String.ofList line).utf8ByteSize) (suffix : List Char) :
    FailsAt sep (line ++ suffix) i parts (.unbalanced offset nest) := by
  have htake : (line ++ suffix).take i = line.take i := List.take_append_of_le_length h.le_length
  have hdrop : (line ++ suffix).drop i = line.drop i ++ suffix :=
    List.drop_append_of_le_length h.le_length
  have hbytes : byteOffset line i = byteOffset (line ++ suffix) i := by
    rw [byteOffset, byteOffset, htake]
  cases h with
  | stray hbefore hclose hcloser =>
    rw [hclose] at hdrop
    rw [hbytes]
    exact .stray (htake ▸ hbefore) hdrop hcloser
  | mismatch hbefore hclose hcloser hmatch =>
    rw [hclose] at hdrop
    rw [hbytes]
    exact .mismatch (htake ▸ hbefore) hdrop hcloser hmatch
  | unclosed hbefore hend =>
    -- at the end of the line there is no bracket
    rw [hend, byteOffset, List.take_length] at hoffset
    exact absurd hoffset (Nat.lt_irrefl _)

/-- **The fault of a line is where its scan first cannot go on.** A line that has a fault has such
a place, and its parts are those before it. What stands before this place is not at fault, and no
other such place comes before it. The fault of a closing bracket depends on nothing behind it. -/
theorem fault_located (sep : Separators) {line : List Char} (hline : '\n' ∉ line) {fault : Fault}
    (hfault : (split sep line).fault = some fault) :
    (∃ i, FailsAt sep line i (split sep line).parts fault ∧
      (∃ rest, (split sep (line.take i ++ rest)).fault = none) ∧
      ∀ j parts other, FailsAt sep line j parts other → i ≤ j) ∧
    ∀ offset nest, fault = .unbalanced offset nest → offset < (String.ofList line).utf8ByteSize →
      ∀ suffix, '\n' ∉ suffix → split sep (line ++ suffix) = split sep line := by
  obtain ⟨i, hfails⟩ := exists_failsAt hline hfault
  obtain ⟨nests, hbefore⟩ := hfails.before
  have hinitial : '\n' ∉ line.take i := fun hmem => hline (List.mem_of_mem_take hmem)
  refine ⟨⟨i, hfails, hbefore.exists_continuation hinitial, ?_⟩, ?_⟩
  · intro j parts other hother
    exact Nat.le_of_eq (hfails.unique hother hline)
  · rintro offset nest rfl hoffset suffix hsuffix
    have hlong : '\n' ∉ line ++ suffix := by simp [hline, hsuffix]
    rw [(hfails.append hoffset suffix).split_eq hlong, hfails.split_eq hline]

/-- Brackets in a clause and in a string do not count, and the offset is in bytes. -/
theorem fault_located_behind_clause :
    let line := "é/(;\")\" (a\x7db".toList
    '\n' ∉ line ∧ (split {} line).fault = some (.unbalanced 11 .paren) ∧
      (∃ i, FailsAt {} line i (split {} line).parts (.unbalanced 11 .paren)) ∧
      ∀ suffix, '\n' ∉ suffix → split {} (line ++ suffix) = split {} line := by
  intro line
  have hline : '\n' ∉ line := by decide
  have hfault : (split {} line).fault = some (.unbalanced 11 .paren) := by decide
  obtain ⟨⟨i, hfails, -⟩, hstable⟩ := fault_located {} hline hfault
  exact ⟨hline, hfault, ⟨i, hfails⟩, hstable 11 .paren rfl (by decide)⟩

end Lots.Line
