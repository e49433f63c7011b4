import Lots.Proofs.Line.Reading

/-!
# Lots — lines glued at a statement end

Behind a statement separator that counts, a line begins anew: what follows splits as a line
of its own, only that the offsets of its faults count from further on.

* **`splitFrom_moved`** — a cursor further on reads the same, with faults further on.
* **`split_append`** — a line splits at any place where a reading begins anew.
* **`reads_ended`** — a line that has no fault, with a statement separator behind it, is
  read up to such a place.
* **`exists_endsAt`** — so is the shortest beginning of a line that holds so many statement
  ends.
-/

namespace Lots.Line

/-! ## Moving -/

/-- The same fault, so many bytes further on. -/
def Fault.moved (n : Nat) : Fault → Fault
  | .unclosedString offset => .unclosedString (offset + n)
  | .unbalanced offset nest => .unbalanced (offset + n) nest
  | .newline => .newline

def Split.moved (n : Nat) (split : Split) : Split :=
  { split with fault := split.fault.map (Fault.moved n) }

def Mode.moved (n : Nat) : Mode → Mode
  | .slice nests => .slice nests
  | .string start nests => .string (start + n) nests
  | .clause => .clause

namespace Cursor

def moved (n : Nat) (k : Cursor) : Cursor :=
  { k with offset := k.offset + n, mode := k.mode.moved n }

variable {sep : Separators} (n : Nat)

theorem moved_keep (k : Cursor) (c : Char) (mode : Mode) :
    (k.moved n).keep c (mode.moved n) = (k.keep c mode).moved n := by
  simp [moved, keep, Nat.add_right_comm]

theorem moved_skip (k : Cursor) (c : Char) (mode : Mode) :
    (k.moved n).skip c (mode.moved n) = (k.skip c mode).moved n := by
  simp [moved, skip, Nat.add_right_comm]

/-- What a step does, further on. -/
def movedStep : Except Fault (List Part × Cursor) → Except Fault (List Part × Cursor)
  | .error fault => .error (fault.moved n)
  | .ok (parts, next) => .ok (parts, next.moved n)

theorem stepClosing_moved (k : Cursor) (c : Char) (closer : Nest) (nests : List Nest) :
    (k.moved n).stepClosing c closer nests = movedStep n (k.stepClosing c closer nests) := by
  cases nests with
  | nil => rfl
  | cons opener outer =>
    rw [stepClosing, stepClosing]
    split
    · rw [movedStep, ← moved_keep]
      rfl
    · rfl

theorem stepOutside_moved (k : Cursor) (c : Char) :
    (k.moved n).stepOutside sep c =
      ((k.stepOutside sep c).1, (k.stepOutside sep c).2.moved n) := by
  unfold stepOutside
  split
  · rw [← moved_skip]
    rfl
  split
  · rw [← moved_skip]
    rfl
  split
  · rw [← moved_skip]
    rfl
  · rw [← moved_keep]
    rfl

theorem stepSlice_moved (k : Cursor) (nests : List Nest) (c : Char) :
    (k.moved n).stepSlice sep nests c = movedStep n (k.stepSlice sep nests c) := by
  unfold stepSlice
  split
  · rw [movedStep, ← moved_keep]
    rfl
  split
  · rw [movedStep, ← moved_keep]
    rfl
  · exact stepClosing_moved n k c _ nests
  · rw [stepOutside_moved]
    split
    · rfl
    · rw [movedStep, ← moved_keep]
      rfl

theorem step_moved (k : Cursor) (c : Char) :
    (k.moved n).step sep c = movedStep n (k.step sep c) := by
  cases hmode : k.mode with
  | slice nests =>
    have hmoved : (k.moved n).mode = .slice nests := by rw [moved, hmode]; rfl
    simp only [step, hmode, hmoved]
    exact stepSlice_moved n k nests c
  | string start nests =>
    have hmoved : (k.moved n).mode = .string (start + n) nests := by rw [moved, hmode]; rfl
    rw [step_string hmode, step_string hmoved, movedStep, ← moved_keep]
    split
    · rfl
    · rfl
  | clause =>
    have hmoved : (k.moved n).mode = .clause := by rw [moved, hmode]; rfl
    rw [step_clause hmode, step_clause hmoved]
    split
    · rw [movedStep, ← moved_skip]
      rfl
    · rw [movedStep, ← moved_keep]
      rfl

theorem finish_moved (k : Cursor) : (k.moved n).finish = k.finish.moved n := by
  obtain ⟨offset, taken, mode⟩ := k
  cases mode with
  | slice nests =>
    cases nests with
    | nil => rfl
    | cons nest outer => rfl
  | string start nests => rfl
  | clause => rfl

end Cursor

open Cursor

variable {sep : Separators}

theorem splitFrom_cons_of_error {k : Cursor} {c : Char} {fault : Fault}
    (hstep : k.step sep c = .error fault) (s : List Char) :
    splitFrom sep k (c :: s) = ⟨[], some fault⟩ := by
  simp [splitFrom, Cursor.read, hstep]

theorem splitFrom_cons_of_ok {k next : Cursor} {c : Char} {parts : List Part}
    (hstep : k.step sep c = .ok (parts, next)) (s : List Char) :
    splitFrom sep k (c :: s) = (splitFrom sep next s).after parts :=
  splitFrom_append (.char hstep) s

/-- **A cursor further on reads the same**, and finds the same fault further on. -/
theorem splitFrom_moved (n : Nat) (k : Cursor) (s : List Char) :
    splitFrom sep (k.moved n) s = (splitFrom sep k s).moved n := by
  induction s generalizing k with
  | nil =>
    -- only an open string or bracket makes the end of the line a fault
    rw [splitFrom_of_reads .nil, splitFrom_of_reads .nil, finish_moved]
    rfl
  | cons c rest ih =>
    have hmoved : (k.moved n).step sep c = movedStep n (k.step sep c) := step_moved n k c
    cases hstep : k.step sep c with
    | error fault =>
      rw [hstep] at hmoved
      rw [splitFrom_cons_of_error hmoved, splitFrom_cons_of_error hstep]
      rfl
    | ok stepped =>
      obtain ⟨parts, next⟩ := stepped
      rw [hstep] at hmoved
      rw [splitFrom_cons_of_ok hmoved, splitFrom_cons_of_ok hstep, ih]
      rfl

/-! ## Where a line begins anew -/

theorem split_eq_splitFrom {line : List Char} (hline : '\n' ∉ line) :
    split sep line = splitFrom sep (start 0) line := by
  have hcontains : line.contains '\n' = false := by simpa using hline
  rw [split, hcontains]
  rfl

/-- A line feed is a fault, so a line without faults has none. -/
theorem newline_not_mem_of_split {line : List Char} (h : (split sep line).fault = none) :
    '\n' ∉ line := by
  intro hmem
  simp [split, hmem] at h

/-- **A line splits where a reading begins anew.** What follows splits as a line of its own,
with faults further on. -/
theorem split_append {s t : List Char} {parts : List Part} (hline : '\n' ∉ s ++ t)
    (h : (start 0).Reads sep s parts (start (bytes s))) :
    split sep (s ++ t) = ((split sep t).moved (bytes s)).after parts := by
  have ht : '\n' ∉ t := fun hmem => hline (List.mem_append_right s hmem)
  -- the cursor behind the reading is the one at the start of a line, further on
  have hmoved : start (bytes s) = (start 0).moved (bytes s) := by
    simp [start, moved, Mode.moved]
  rw [split_eq_splitFrom hline, splitFrom_append h, hmoved, splitFrom_moved,
    ← split_eq_splitFrom ht]

theorem split_of_reads {s : List Char} {parts : List Part} (hline : '\n' ∉ s)
    (h : (start 0).Reads sep s parts (start (bytes s))) : split sep s = ⟨parts, none⟩ := by
  rw [split_eq_splitFrom hline, splitFrom_of_reads h]
  simp [finish, start, Split.after]

/-- Whatever a cursor without a fault is in, a statement separator ends it. -/
theorem step_ended {k : Cursor} (h : k.finish.fault = none) :
    ∃ before, k.step sep sep.stmt = .ok (before ++ [.endStmt], k.skip sep.stmt (.slice [])) := by
  cases hmode : k.mode with
  | slice nests =>
    cases nests with
    | nil => exact ⟨sliceEntry k.text, step_stmt hmode⟩
    | cons nest outer => simp [finish, hmode] at h
  | string start nests => simp [finish, hmode] at h
  | clause =>
    refine ⟨[.options (Text.strip k.text)], ?_⟩
    rw [step_clause hmode, if_pos rfl]
    rfl

theorem stmt_ne_newline (sep : Separators) : sep.stmt ≠ '\n' :=
  ne_newline_of_canSeparate sep.canSeparate_stmt

/-- **A line begins anew behind a statement separator** if what stands before has no fault. -/
theorem reads_ended {line : List Char} (h : (split sep line).fault = none) :
    ∃ before, (start 0).Reads sep (line ++ [sep.stmt]) (before ++ [.endStmt])
      (start (bytes (line ++ [sep.stmt]))) := by
  rw [split_eq_splitFrom (newline_not_mem_of_split h)] at h
  cases hread : (start 0).read sep line with
  | mk parts result =>
    cases result with
    | error fault => simp [splitFrom, hread] at h
    | ok last =>
      have hreads : (start 0).Reads sep line parts last := hread
      rw [splitFrom_of_reads hreads] at h
      obtain ⟨before, hstep⟩ := step_ended h
      have hall := hreads.append (.char hstep)
      have hnext : last.skip sep.stmt (.slice []) = start (bytes (line ++ [sep.stmt])) := by
        simp [skip, start, hreads.offset]
      rw [hnext, ← List.append_assoc] at hall
      exact ⟨parts ++ before, hall⟩

/-! ## The shortest beginning with so many statement ends -/

/-- How many statements end in what was split. -/
def Split.endCount (split : Split) : Nat :=
  split.parts.count .endStmt

/-- A line ends so many statements with this beginning, and with no shorter one. -/
structure EndsAt (sep : Separators) (n : Nat) (line s : List Char) : Prop where
  initial : s <+: line
  ends : (split sep s).endCount = n
  least : ∀ t, t <+: line → (split sep t).endCount = n → s.length ≤ t.length

/-- Parts of whole statements: the last one ends a statement. -/
def Whole (parts : List Part) : Prop :=
  parts = [] ∨ ∃ before, parts = before ++ [.endStmt]

/-- Parts that leave no options waiting: whole statements, and entries behind them. -/
def Settled (parts : List Part) : Prop :=
  ∃ (whole : List Part) (texts : List (List Char)),
    Whole whole ∧ parts = whole ++ texts.map Part.entry

theorem Whole.settled {parts : List Part} (h : Whole parts) : Settled parts :=
  ⟨parts, [], h, (List.append_nil parts).symm⟩

theorem endCount_after (parts : List Part) (split : Split) :
    (split.after parts).endCount = parts.count .endStmt + split.endCount := by
  simp [Split.endCount, Split.after]

theorem endCount_finish (k : Cursor) : k.finish.endCount = 0 := by
  obtain ⟨offset, taken, mode⟩ := k
  cases mode with
  | slice nests =>
    cases nests with
    | nil => by_cases htaken : taken = [] <;> simp [finish, Split.endCount, htaken]
    | cons nest outer => rfl
  | string start nests => rfl
  | clause => rfl

theorem endCount_splitFrom_nil (k : Cursor) : (splitFrom sep k []).endCount = 0 := by
  rw [splitFrom_of_reads .nil, endCount_after, endCount_finish]
  rfl

/-- A step that ends statements ends one, last of all, and the line begins anew. -/
theorem step_ends {k next : Cursor} {c : Char} {parts : List Part}
    (h : k.step sep c = .ok (parts, next)) (hends : parts.count .endStmt ≠ 0) :
    parts.count .endStmt = 1 ∧ next = start (k.offset + c.utf8Size) ∧
      ∃ before, parts = before ++ [.endStmt] := by
  rcases step_cases h with ⟨rfl, -⟩ | ⟨hdone, -⟩ | ⟨rfl, before, rfl, hbefore⟩
  · exact absurd rfl hends
  · exact absurd (List.count_eq_zero.mpr hdone.endStmt_not_mem) hends
  · refine ⟨?_, rfl, before, rfl⟩
    rw [List.count_append, List.count_eq_zero.mpr hbefore.endStmt_not_mem]
    rfl

/-- A reading of so many statement ends goes through a place where the line begins anew.
Before that place it has met fewer. -/
theorem exists_reads_anew {k : Cursor} {n : Nat} {s : List Char} (hn : 0 < n)
    (h : n ≤ (splitFrom sep k s).endCount) :
    ∃ t rest before, s = t ++ rest ∧
      k.Reads sep t (before ++ [.endStmt]) (start (k.offset + bytes t)) ∧
      (before ++ [.endStmt]).count .endStmt = n ∧
      ∀ u, u <+: t → u ≠ t → (splitFrom sep k u).endCount < n := by
  induction s generalizing k n with
  | nil =>
    rw [endCount_splitFrom_nil] at h
    omega
  | cons c s ih =>
    cases hstep : k.step sep c with
    | error fault =>
      rw [splitFrom_cons_of_error hstep] at h
      have hzero : n ≤ 0 := h
      omega
    | ok stepped =>
      obtain ⟨first, mid⟩ := stepped
      rw [splitFrom_cons_of_ok hstep, endCount_after] at h
      by_cases hlast : first.count .endStmt < n
      · -- the place is further on: it is the one for the ends that are still to come
        have hmore : n - first.count .endStmt ≤ (splitFrom sep mid s).endCount := by omega
        obtain ⟨t, rest, before, rfl, hreads, hcount, hfewer⟩ := ih (by omega) hmore
        refine ⟨c :: t, rest, first ++ before, rfl, ?_, ?_, ?_⟩
        · have hall := Reads.cons hstep hreads
          rw [step_offset hstep, Nat.add_assoc, ← bytes_cons, ← List.append_assoc] at hall
          exact hall
        · rw [List.append_assoc, List.count_append, hcount]
          omega
        · intro u hu hne
          cases u with
          | nil =>
            rw [endCount_splitFrom_nil]
            exact hn
          | cons d u =>
            obtain ⟨hd, hut⟩ := List.cons_prefix_cons.mp hu
            subst hd
            have hfew := hfewer u hut fun heq => hne (by rw [heq])
            rw [splitFrom_cons_of_ok hstep, endCount_after]
            omega
      · -- the character ends the last of them
        obtain ⟨hone, hnext, before, rfl⟩ := step_ends hstep (by omega)
        refine ⟨[c], s, before, rfl, ?_, by omega, ?_⟩
        · have hread := Reads.char hstep
          rw [hnext] at hread
          exact hread
        · intro u hu hne
          have hnil : u = [] := by
            rcases List.prefix_cons_iff.mp hu with rfl | ⟨more, rfl, hmore⟩
            · rfl
            · rw [List.prefix_nil.mp hmore] at hne
              exact absurd rfl hne
          rw [hnil, endCount_splitFrom_nil]
          exact hn

/-- **The shortest beginning is whole.** A line that holds so many statement ends has a
shortest beginning that does, and begins anew behind it. -/
theorem exists_endsAt {line : List Char} {n : Nat} (hline : '\n' ∉ line)
    (h : n ≤ (split sep line).endCount) :
    ∃ s rest parts, line = s ++ rest ∧ EndsAt sep n line s ∧
      (start 0).Reads sep s parts (start (bytes s)) ∧ Whole parts ∧
      parts.count .endStmt = n := by
  cases n with
  | zero =>
    refine ⟨[], line, [], rfl, ⟨List.nil_prefix, ?_, ?_⟩, .nil, .inl rfl, rfl⟩
    · rfl
    · intro t _ _
      exact Nat.zero_le _
  | succ n =>
    rw [split_eq_splitFrom hline] at h
    obtain ⟨s, rest, before, rfl, hreads, hcount, hfewer⟩ := exists_reads_anew (by omega) h
    have hoffset : (start 0).offset + bytes s = bytes s := Nat.zero_add _
    rw [hoffset] at hreads
    have hs : '\n' ∉ s := fun hmem => hline (List.mem_append_left rest hmem)
    refine ⟨s, rest, before ++ [.endStmt], rfl, ⟨List.prefix_append s rest, ?_, ?_⟩, hreads,
      .inr ⟨before, rfl⟩, hcount⟩
    · rw [split_of_reads hs hreads]
      exact hcount
    · intro t ht hends
      -- a shorter beginning with as many ends would lie within the reading
      refine Nat.le_of_not_lt fun hshort => ?_
      have hts : t <+: s :=
        List.prefix_of_prefix_length_le ht (List.prefix_append s rest) (by omega)
      have hne : t ≠ s := fun heq => Nat.lt_irrefl _ (heq ▸ hshort)
      have hnewline : '\n' ∉ t := fun hmem => hs (hts.subset hmem)
      have hless := hfewer t hts hne
      rw [← split_eq_splitFrom hnewline, hends] at hless
      omega

/-! ## Statement ends of a tree -/

theorem endStmt_not_mem_slicesParts (slices : List (Slice sep)) :
    Part.endStmt ∉ slicesParts slices := by
  simp [slicesParts]

theorem endStmt_not_mem_lastSliceParts (slice : Slice sep) :
    Part.endStmt ∉ lastSliceParts slice := by
  unfold lastSliceParts
  split <;> simp

theorem endStmt_not_mem_clauseParts (clause : Option (Clause sep)) :
    Part.endStmt ∉ clauseParts clause := by
  cases clause <;> simp [clauseParts]

theorem count_endedParts (stmt : StmtTree sep) : stmt.endedParts.count .endStmt = 1 := by
  have hbefore : Part.endStmt ∉
      slicesParts stmt.earlier ++ lastSliceParts stmt.last ++ clauseParts stmt.clause := by
    simp [endStmt_not_mem_slicesParts, endStmt_not_mem_lastSliceParts,
      endStmt_not_mem_clauseParts]
  rw [StmtTree.endedParts, List.count_append, List.count_eq_zero.mpr hbefore]
  rfl

theorem count_flatMap_endedParts (stmts : List (StmtTree sep)) :
    (stmts.flatMap StmtTree.endedParts).count .endStmt = stmts.length := by
  induction stmts with
  | nil => rfl
  | cons stmt rest ih =>
    rw [List.flatMap_cons, List.count_append, count_endedParts, ih, List.length_cons,
      Nat.add_comm]

theorem whole_flatMap_endedParts (stmts : List (StmtTree sep)) :
    Whole (stmts.flatMap StmtTree.endedParts) := by
  rcases List.eq_nil_or_concat stmts with rfl | ⟨front, last, rfl⟩
  · exact .inl rfl
  · refine .inr ⟨front.flatMap StmtTree.endedParts ++ (slicesParts last.earlier ++
      lastSliceParts last.last ++ clauseParts last.clause), ?_⟩
    simp [StmtTree.endedParts]

/-- The end of a line without options leaves entries only. -/
theorem openParts_of_no_clause {stmt : StmtTree sep} (h : stmt.clause = none) :
    ∃ texts : List (List Char), stmt.openParts = texts.map Part.entry := by
  obtain ⟨earlier, last, clause⟩ := stmt
  obtain rfl : clause = none := h
  by_cases hempty : last.val = []
  · exact ⟨earlier.map fun slice => trim slice.val, by
      simp [StmtTree.openParts, slicesParts, hempty]⟩
  · exact ⟨(earlier ++ [last]).map fun slice => trim slice.val, by
      simp [StmtTree.openParts, slicesParts, hempty]⟩

theorem count_openParts (stmt : StmtTree sep) : stmt.openParts.count .endStmt = 0 := by
  apply List.count_eq_zero.mpr
  cases hclause : stmt.clause with
  | none =>
    obtain ⟨texts, htexts⟩ := openParts_of_no_clause hclause
    simp [htexts]
  | some clause =>
    simp [StmtTree.openParts, hclause, endStmt_not_mem_slicesParts,
      endStmt_not_mem_lastSliceParts, endStmt_not_mem_clauseParts]

end Lots.Line
