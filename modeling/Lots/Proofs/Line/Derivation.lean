import Lots.Proofs.Line.Ambiguity

/-!
# Lots — a line is read as the grammar derives it

`split` finds exactly the lines that the grammar derives, and gives the parts that their
tree reads off.

* **`split_text`** — completeness: the text of a tree is read into the parts of the tree.
  The readings of slices, clauses and statements are put one behind the other.
* **`Derived`** — what stands before a cursor while a line is read: statements and slices
  that have ended, and the open text of the mode. `Derived.step` says that one character
  keeps it, and `Derived.reads` that a whole reading does.
* **`exists_tree_of_split`** — soundness: at the end of the line the open text closes into
  the last statement of a tree.
* **`split_iff_tree`** — the two together, for the one tree that a line may have.
-/

namespace Lots.Line

variable {sep : Separators}

open Cursor

/-! ## Completeness -/

/-- A separator behind a text brings the cursor to the start of an entry. -/
theorem skip_past_start (n : Nat) (s : List Char) (c : Char) :
    ((start n).past s).skip c (.slice []) = start (n + bytes (s ++ [c])) := by
  simp [start, past, skip, Nat.add_assoc]

theorem past_start_text (n : Nat) (s : List Char) : ((start n).past s).text = s :=
  past_text s

theorem reads_entry (n : Nat) (slice : Slice sep) :
    (start n).Reads sep (slice.val ++ [sep.entry]) [.entry (trim slice.val)]
      (start (n + bytes (slice.val ++ [sep.entry]))) := by
  have hslice : (start n).Reads sep slice.val [] ((start n).past slice.val) :=
    reads_slice rfl slice
  have hstep : ((start n).past slice.val).step sep sep.entry = _ := step_entry rfl
  rw [skip_past_start, past_start_text] at hstep
  exact hslice.append (.char hstep)

theorem reads_slices (slices : List (Slice sep)) (n : Nat) :
    (start n).Reads sep (slicesText slices) (slicesParts slices)
      (start (n + bytes (slicesText slices))) := by
  induction slices generalizing n with
  | nil => exact .nil
  | cons slice rest ih =>
    have hreads := (reads_entry n slice).append (ih _)
    rw [Nat.add_assoc, ← bytes_append] at hreads
    exact hreads

/-- The options separator behind a slice opens a clause. -/
theorem reads_slice_options (n : Nat) (slice : Slice sep) :
    (start n).Reads sep (slice.val ++ [sep.options]) (lastSliceParts slice)
      ⟨n + bytes (slice.val ++ [sep.options]), [], .clause⟩ := by
  have hslice : (start n).Reads sep slice.val [] ((start n).past slice.val) :=
    reads_slice rfl slice
  have hstep : ((start n).past slice.val).step sep sep.options = _ := step_options rfl
  rw [past_start_text, sliceEntry_eq] at hstep
  have hreads := hslice.append (.char hstep)
  simpa [start, past, skip, Nat.add_assoc] using hreads

theorem reads_stmt (stmt : StmtTree sep) (n : Nat) :
    (start n).Reads sep (stmt.text ++ [sep.stmt]) stmt.endedParts
      (start (n + bytes (stmt.text ++ [sep.stmt]))) := by
  obtain ⟨earlier, slice, clause⟩ := stmt
  have hearlier := reads_slices earlier n
  -- the separator ends the last slice, or the clause behind it
  cases clause with
  | none =>
    let k := start (n + bytes (slicesText earlier))
    have hslice : k.Reads sep slice.val [] (k.past slice.val) := reads_slice rfl slice
    have hstep : (k.past slice.val).step sep sep.stmt = _ := step_stmt rfl
    rw [skip_past_start, past_start_text, sliceEntry_eq] at hstep
    have hreads := hearlier.append (hslice.append (.char hstep))
    simpa [StmtTree.text, StmtTree.endedParts, clauseText, clauseParts, Nat.add_assoc]
      using hreads
  | some clause =>
    have hoptions := reads_slice_options (n + bytes (slicesText earlier)) slice
    let k : Cursor :=
      ⟨n + bytes (slicesText earlier) + bytes (slice.val ++ [sep.options]), [], .clause⟩
    have hclause : k.Reads sep clause.val [] (k.past clause.val) :=
      reads_clause rfl clause.property
    have hstep : (k.past clause.val).step sep sep.stmt = _ := step_clause rfl
    rw [if_pos rfl] at hstep
    have hreads := hearlier.append (hoptions.append (hclause.append (.char hstep)))
    simpa [StmtTree.text, StmtTree.endedParts, clauseText, clauseParts, k, start, past, skip,
      text, Nat.add_assoc] using hreads

theorem reads_stmts (stmts : List (StmtTree sep)) (n : Nat) :
    (start n).Reads sep (stmtsText stmts) (stmts.flatMap StmtTree.endedParts)
      (start (n + bytes (stmtsText stmts))) := by
  induction stmts generalizing n with
  | nil => exact .nil
  | cons stmt rest ih =>
    have hreads := (reads_stmt stmt n).append (ih _)
    rw [Nat.add_assoc, ← bytes_append] at hreads
    exact hreads

/-- The statement that the end of the line leaves gives its parts, the last ones at that
end. -/
theorem reads_last (stmt : StmtTree sep) (n : Nat) :
    ∃ parts last, (start n).Reads sep stmt.text parts last ∧
      last.finish.after parts = ⟨stmt.openParts, none⟩ := by
  obtain ⟨earlier, slice, clause⟩ := stmt
  have hearlier := reads_slices earlier n
  cases clause with
  | none =>
    let k := start (n + bytes (slicesText earlier))
    have hslice : k.Reads sep slice.val [] (k.past slice.val) := reads_slice rfl slice
    refine ⟨_, _, by simpa [StmtTree.text, clauseText] using hearlier.append hslice, ?_⟩
    -- here, and only here, a slice without characters is no entry
    by_cases hempty : slice.val = []
    · simp [k, start, past, finish, Split.after, StmtTree.openParts, hempty]
    · simp [k, start, past, finish, text, Split.after, StmtTree.openParts, hempty]
  | some clause =>
    have hoptions := reads_slice_options (n + bytes (slicesText earlier)) slice
    let k : Cursor :=
      ⟨n + bytes (slicesText earlier) + bytes (slice.val ++ [sep.options]), [], .clause⟩
    have hclause : k.Reads sep clause.val [] (k.past clause.val) :=
      reads_clause rfl clause.property
    refine ⟨_, _, by
      simpa [StmtTree.text, clauseText] using hearlier.append (hoptions.append hclause), ?_⟩
    simp [k, past, finish, text, Split.after, StmtTree.openParts, clauseParts]

/-- **Completeness.** The text of a tree splits into the parts of the tree. -/
theorem split_text (tree : Tree sep) (hline : '\n' ∉ tree.text) :
    split sep tree.text = ⟨tree.parts, none⟩ := by
  have hcontains : tree.text.contains '\n' = false := by simpa using hline
  obtain ⟨parts, last, hlast, hfinish⟩ := reads_last tree.last (0 + bytes (stmtsText tree.ended))
  have hreads := (reads_stmts tree.ended 0).append hlast
  have hsplit : splitFrom sep {} tree.text =
      last.finish.after (tree.ended.flatMap StmtTree.endedParts ++ parts) :=
    splitFrom_of_reads hreads
  simp only [split, hcontains, Bool.false_eq_true, if_false, hsplit]
  rw [Split.after, Split.mk.injEq] at hfinish
  simp [Split.after, Tree.parts, ← hfinish.1, hfinish.2]

/-- Behind an options separator at the start of a line stands a clause and nothing else. -/
theorem split_clause {clause : List Char} (hline : '\n' ∉ clause) (hstmt : sep.stmt ∉ clause) :
    split sep (sep.options :: clause) = ⟨[.options (Text.strip clause)], none⟩ := by
  let tree : Tree sep := ⟨[], ⟨[], ⟨[], .nil⟩, some ⟨clause, hstmt⟩⟩⟩
  have htext : '\n' ∉ tree.text := by
    intro hmem
    rcases List.mem_cons.mp hmem with hsep | hclause
    · exact ne_newline_of_canSeparate sep.canSeparate_options hsep.symm
    · exact hline hclause
  exact split_text tree htext

/-! ## Soundness

A cursor in the middle of a line has some statements and slices behind it that have ended,
and an open text: a slice with open brackets, a string in it, or a clause. -/

/-- Texts of slices in which brackets of these kinds are open, innermost first. -/
inductive Opened (sep : Separators) : List Nest → List Char → Prop where
  | slice {s : List Char} (hs : Balanced sep false s) : Opened sep [] s
  | group {nests : List Nest} {s body : List Char} {a : Char} {opener : Nest}
      (hs : Opened sep nests s) (hopen : Nest.opening? a = some opener)
      (hbody : Balanced sep true body) :
      Opened sep (opener :: nests) (s ++ a :: body)

theorem Opened.append {nests : List Nest} {s t : List Char} (hs : Opened sep nests s)
    (ht : Balanced sep (!nests.isEmpty) t) : Opened sep nests (s ++ t) := by
  cases hs with
  | slice hs => exact .slice (hs.append ht)
  | group hs hopen hbody =>
    rw [List.append_assoc, List.cons_append]
    exact .group hs hopen (hbody.append ht)

theorem Opened.balanced {s : List Char} (hs : Opened sep [] s) : Balanced sep false s := by
  cases hs with
  | slice hs => exact hs

/-- A matching bracket closes the innermost group. -/
theorem Opened.close {nests : List Nest} {s : List Char} {b : Char} {opener closer : Nest}
    (hs : Opened sep (opener :: nests) s) (hclose : Nest.closing? b = some closer)
    (hmatch : opener.closedBy closer = true) : Opened sep nests (s ++ [b]) := by
  cases hs with
  | @group _ s body a _ hs hopen hbody =>
    have hpair : Closes a b := Nest.closes_iff.mpr ⟨opener, closer, hopen, hclose, hmatch⟩
    rw [List.append_assoc, List.cons_append]
    exact hs.append (.group hpair hbody .nil)

/-- What has ended before a cursor: statements, and slices of the statement it is in. -/
structure Front (sep : Separators) where
  ended : List (StmtTree sep) := []
  earlier : List (Slice sep) := []

def Front.text (front : Front sep) : List Char :=
  stmtsText front.ended ++ slicesText front.earlier

def Front.parts (front : Front sep) : List Part :=
  front.ended.flatMap StmtTree.endedParts ++ slicesParts front.earlier

def Front.addSlice (front : Front sep) (slice : Slice sep) : Front sep :=
  { front with earlier := front.earlier ++ [slice] }

/-- The statement of the slices and a last one, with a statement separator behind it. -/
def Front.addStmt (front : Front sep) (last : Slice sep) (clause : Option (Clause sep)) :
    Front sep :=
  { ended := front.ended ++ [⟨front.earlier, last, clause⟩] }

def Front.close (front : Front sep) (last : Slice sep) (clause : Option (Clause sep)) :
    Tree sep :=
  ⟨front.ended, ⟨front.earlier, last, clause⟩⟩

theorem Front.addSlice_text (front : Front sep) (slice : Slice sep) :
    (front.addSlice slice).text = front.text ++ slice.val ++ [sep.entry] := by
  simp [Front.text, Front.addSlice, slicesText]

theorem Front.addSlice_parts (front : Front sep) (slice : Slice sep) :
    (front.addSlice slice).parts = front.parts ++ [.entry (trim slice.val)] := by
  simp [Front.parts, Front.addSlice, slicesParts]

theorem Front.addStmt_text (front : Front sep) (last : Slice sep)
    (clause : Option (Clause sep)) :
    (front.addStmt last clause).text =
      front.text ++ last.val ++ clauseText clause ++ [sep.stmt] := by
  simp [Front.text, Front.addStmt, stmtsText, slicesText, StmtTree.text]

theorem Front.addStmt_parts (front : Front sep) (last : Slice sep)
    (clause : Option (Clause sep)) :
    (front.addStmt last clause).parts =
      front.parts ++ lastSliceParts last ++ clauseParts clause ++ [.endStmt] := by
  simp [Front.parts, Front.addStmt, slicesParts, StmtTree.endedParts]

/-- How the text and the parts before a cursor came about. -/
inductive Derived (sep : Separators) (line : List Char) (parts : List Part) (k : Cursor) :
    Prop where
  | slice (front : Front sep) (nests : List Nest) (hmode : k.mode = .slice nests)
      (hopen : Opened sep nests k.text) (hline : line = front.text ++ k.text)
      (hparts : parts = front.parts)
  | string (front : Front sep) (nests : List Nest) (start : Nat) (s body : List Char)
      (hmode : k.mode = .string start nests) (hopen : Opened sep nests s) (hbody : '"' ∉ body)
      (htext : k.text = s ++ '"' :: body) (hline : line = front.text ++ k.text)
      (hparts : parts = front.parts)
  | clause (front : Front sep) (last : Slice sep) (hmode : k.mode = .clause)
      (hclause : sep.stmt ∉ k.text)
      (hline : line = front.text ++ last.val ++ sep.options :: k.text)
      (hparts : parts = front.parts ++ lastSliceParts last)

theorem derived_start (n : Nat) : Derived sep [] [] (start n) :=
  .slice {} [] rfl (.slice .nil) rfl rfl

/-! ### One character

The cases follow the modes; a slice splits further into quotes, brackets and plain
characters, which separate only where no bracket is open. -/

variable {k next : Cursor} {c : Char} {more : List Part}

theorem derived_step_outside {front : Front sep} (hmode : k.mode = .slice [])
    (hslice : Balanced sep false k.text) (hplain : c ∉ reservedChars)
    (hstep : k.step sep c = .ok (more, next)) :
    Derived sep (front.text ++ k.text ++ [c]) (front.parts ++ more) next := by
  let slice : Slice sep := ⟨k.text, hslice⟩
  -- a separator moves the open slice to what has ended
  by_cases hsep : sep.Separates c
  · rcases hsep with rfl | rfl | rfl
    · rw [step_entry hmode] at hstep
      cases hstep
      refine .slice (front.addSlice slice) [] rfl (.slice .nil) ?_ ?_
      · rw [Front.addSlice_text]
        simp [slice, skip, text]
      · rw [Front.addSlice_parts]
    · rw [step_options hmode, sliceEntry_eq slice] at hstep
      cases hstep
      refine .clause front slice rfl ?_ ?_ rfl
      · simp [skip, text]
      · simp [slice, skip, text]
    · rw [step_stmt hmode, sliceEntry_eq slice] at hstep
      cases hstep
      refine .slice (front.addStmt slice none) [] rfl (.slice .nil) ?_ ?_
      · rw [Front.addStmt_text]
        simp [slice, skip, text, clauseText]
      · rw [Front.addStmt_parts]
        simp [slice, clauseParts]
  · rw [step_outside hmode hplain hsep] at hstep
    cases hstep
    refine .slice front [] rfl ?_ ?_ (List.append_nil _)
    · rw [keep_text]
      exact .slice (hslice.append (.char hplain (.inr hsep)))
    · rw [keep_text, List.append_assoc]

theorem derived_step_closing {front : Front sep} {nests : List Nest} {closer : Nest}
    (hmode : k.mode = .slice nests) (hopen : Opened sep nests k.text)
    (hclose : Nest.closing? c = some closer) (hstep : k.step sep c = .ok (more, next)) :
    Derived sep (front.text ++ k.text ++ [c]) (front.parts ++ more) next := by
  rw [step_closing hmode hclose] at hstep
  cases nests with
  | nil => cases hstep
  | cons opener outer =>
    rw [stepClosing] at hstep
    split at hstep
    · next hmatch =>
      cases hstep
      refine .slice front outer rfl ?_ ?_ (List.append_nil _)
      · rw [keep_text]
        exact hopen.close hclose hmatch
      · rw [keep_text, List.append_assoc]
    · cases hstep

theorem derived_step_slice {front : Front sep} {nests : List Nest}
    (hmode : k.mode = .slice nests) (hopen : Opened sep nests k.text)
    (hstep : k.step sep c = .ok (more, next)) :
    Derived sep (front.text ++ k.text ++ [c]) (front.parts ++ more) next := by
  by_cases hquote : c = '"'
  · subst hquote
    rw [step_quote hmode] at hstep
    cases hstep
    refine .string front nests k.offset k.text [] rfl hopen (by simp) ?_ ?_ (List.append_nil _)
    · rw [keep_text]
    · rw [keep_text, List.append_assoc]
  cases hopening : Nest.opening? c with
  | some opener =>
    rw [step_opening hmode hopening] at hstep
    cases hstep
    refine .slice front (opener :: nests) rfl ?_ ?_ (List.append_nil _)
    · rw [keep_text]
      exact .group hopen hopening .nil
    · rw [keep_text, List.append_assoc]
  | none =>
    cases hclosing : Nest.closing? c with
    | some closer => exact derived_step_closing hmode hopen hclosing hstep
    | none =>
      have hplain := Nest.not_mem_reservedChars hquote hopening hclosing
      cases nests with
      | nil => exact derived_step_outside hmode hopen.balanced hplain hstep
      | cons opener outer =>
        -- inside a group every plain character belongs to the slice
        rw [step_plain hmode hplain] at hstep
        cases hstep
        refine .slice front (opener :: outer) rfl ?_ ?_ (List.append_nil _)
        · rw [keep_text]
          exact hopen.append (.char hplain (.inl rfl))
        · rw [keep_text, List.append_assoc]

theorem derived_step_string {front : Front sep} {nests : List Nest} {start : Nat}
    {s body : List Char} (hmode : k.mode = .string start nests) (hopen : Opened sep nests s)
    (hbody : '"' ∉ body) (htext : k.text = s ++ '"' :: body)
    (hstep : k.step sep c = .ok (more, next)) :
    Derived sep (front.text ++ k.text ++ [c]) (front.parts ++ more) next := by
  rw [step_string hmode] at hstep
  cases hstep
  by_cases hquote : c = '"'
  · subst hquote
    -- the string is closed and belongs to the slice around it
    refine .slice front nests (by simp [keep]) ?_ ?_ (List.append_nil _)
    · rw [keep_text, htext, List.append_assoc, List.cons_append]
      exact hopen.append (.string hbody .nil)
    · rw [keep_text, List.append_assoc]
  · refine .string front nests start s (body ++ [c]) (by simp [keep, hquote]) hopen ?_ ?_ ?_
      (List.append_nil _)
    · simp [hbody, Ne.symm hquote]
    · simp [keep_text, htext]
    · rw [keep_text, List.append_assoc]

theorem derived_step_clause {front : Front sep} {last : Slice sep} (hmode : k.mode = .clause)
    (hclause : sep.stmt ∉ k.text) (hstep : k.step sep c = .ok (more, next)) :
    Derived sep (front.text ++ last.val ++ sep.options :: k.text ++ [c])
      (front.parts ++ lastSliceParts last ++ more) next := by
  rw [step_clause hmode] at hstep
  split at hstep
  · next hc =>
    subst hc
    cases hstep
    let clause : Clause sep := ⟨k.text, hclause⟩
    refine .slice (front.addStmt last (some clause)) [] rfl (.slice .nil) ?_ ?_
    · rw [Front.addStmt_text]
      simp [clause, clauseText, skip, text]
    · rw [Front.addStmt_parts]
      simp [clause, clauseParts]
  · next hc =>
    cases hstep
    refine .clause front last rfl ?_ ?_ (List.append_nil _)
    · rw [keep_text]
      simp [hclause, Ne.symm hc]
    · simp [keep_text]

/-- **A step lengthens what is derived by its character and its parts.** -/
theorem Derived.step {line : List Char} {parts : List Part} (h : Derived sep line parts k)
    (hstep : k.step sep c = .ok (more, next)) :
    Derived sep (line ++ [c]) (parts ++ more) next := by
  cases h with
  | slice front nests hmode hopen hline hparts =>
    rw [hline, hparts]
    exact derived_step_slice hmode hopen hstep
  | string front nests start s body hmode hopen hbody htext hline hparts =>
    rw [hline, hparts]
    exact derived_step_string hmode hopen hbody htext hstep
  | clause front last hmode hclause hline hparts =>
    rw [hline, hparts]
    exact derived_step_clause hmode hclause hstep

/-! ### Whole lines -/

theorem Derived.reads {line s : List Char} {parts : List Part} (h : Derived sep line parts k)
    (hreads : k.Reads sep s more next) : Derived sep (line ++ s) (parts ++ more) next := by
  induction s generalizing k line parts more with
  | nil =>
    obtain ⟨rfl, rfl⟩ := hreads.unique .nil
    simpa using h
  | cons c rest ih =>
    obtain ⟨first, mid, after, hstep, hrest, rfl⟩ := hreads.uncons
    have hderived := ih (h.step hstep) hrest
    simpa using hderived

/-- Where a line may end, what is derived closes into a tree. -/
theorem Derived.exists_tree {line : List Char} {parts : List Part} (h : Derived sep line parts k)
    (hfault : k.finish.fault = none) :
    ∃ tree : Tree sep, tree.text = line ∧ tree.parts = parts ++ k.finish.parts := by
  cases h with
  | slice front nests hmode hopen hline hparts =>
    cases nests with
    | cons opener outer => simp [finish, hmode] at hfault
    | nil =>
      refine ⟨front.close ⟨k.text, hopen.balanced⟩ none, ?_, ?_⟩
      · rw [hline]
        simp [Front.close, Front.text, Tree.text, StmtTree.text, clauseText]
      · rw [hparts]
        simp [Front.close, Front.parts, Tree.parts, StmtTree.openParts, finish, hmode, text]
  | string front nests start s body hmode =>
    simp [finish, hmode] at hfault
  | clause front last hmode hclause hline hparts =>
    refine ⟨front.close last (some ⟨k.text, hclause⟩), ?_, ?_⟩
    · rw [hline]
      simp [Front.close, Front.text, Tree.text, StmtTree.text, clauseText]
    · rw [hparts]
      simp [Front.close, Front.parts, Tree.parts, StmtTree.openParts, clauseParts, finish, hmode]

/-- **Soundness.** A line that splits without a fault is the text of a tree. -/
theorem exists_tree_of_split {line : List Char} (h : (split sep line).fault = none) :
    ∃ tree : Tree sep, tree.text = line ∧ tree.parts = (split sep line).parts := by
  unfold split at h ⊢
  split at h
  · cases h
  · next hline =>
    rw [if_neg hline]
    unfold splitFrom at h ⊢
    split at h
    · cases h
    · next parts last hread =>
      have hreads : (start 0).Reads sep line parts last := hread
      exact ((derived_start 0).reads hreads).exists_tree h

/-- **Splitting is the grammar.** A line splits without a fault exactly when the grammar
derives it, and then into the parts of its tree, which is the only one. -/
theorem split_iff_tree (sep : Separators) {line : List Char} (hline : '\n' ∉ line) :
    ((split sep line).fault = none ↔ ∃ tree : Tree sep, tree.text = line) ∧
      ∀ tree : Tree sep, tree.text = line →
        (split sep line).parts = tree.parts ∧
          ∀ other : Tree sep, other.text = line → other = tree := by
  refine ⟨⟨?_, ?_⟩, ?_⟩
  · intro hfault
    obtain ⟨tree, htext, -⟩ := exists_tree_of_split hfault
    exact ⟨tree, htext⟩
  · rintro ⟨tree, rfl⟩
    rw [split_text tree hline]
  · rintro tree rfl
    rw [split_text tree hline]
    exact ⟨rfl, fun other hother => Tree.text_injective hother⟩

/-- A separator in a group or a string belongs to the slice, also where round and square
brackets close each other. -/
theorem exists_tree_of_nested_separators :
    ∃ tree : Tree {}, tree.text = "a,(b;c] /2o;\"x,y\"".toList ∧
      tree.parts = [.entry "a".toList, .entry "(b;c]".toList, .options "2o".toList, .endStmt,
        .entry "x,y".toList] := by
  have hline := @split_iff_tree {} "a,(b;c] /2o;\"x,y\"".toList (by decide)
  obtain ⟨tree, htext⟩ := hline.1.mp (by decide)
  have hparts := (hline.2 tree htext).1
  exact ⟨tree, htext, by rw [← hparts]; decide⟩

end Lots.Line
