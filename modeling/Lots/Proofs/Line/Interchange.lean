import Lots.Proofs.Line.Derivation
import Lots.Proofs.Line.Gluing
import Lots.Proofs.Line.Trimming
import Mathlib.Data.List.Forall2

/-!
# Lots — round for square brackets

Round and square brackets close each other, so nothing that is done with a line can tell them
apart. Two lines that differ in these brackets only, at any of their places and also inside
strings and clauses, split at the same places; a fault is found at the same byte and names
brackets that may differ in the same way.

* **`Interchanged`** — characters that are equal, or round and square brackets to one side.
* **`samePlace_trim`** — texts in such characters are trimmed to the same places.
* **`Abreast`** — two cursors behind as many characters, whose open brackets differ pointwise
  in that way; `parallel_step` keeps them so.
* **`split_interchange`** — the parts of the two lines stand at the same places, in order.
-/

namespace Lots

/-! ## Brackets -/

/-- The same kind of brackets, but for an exchange of round and square ones. -/
def Nest.Interchanged (a b : Nest) : Prop :=
  a = b ∨ a ≠ .curly ∧ b ≠ .curly

instance (a b : Nest) : Decidable (a.Interchanged b) :=
  inferInstanceAs (Decidable (a = b ∨ a ≠ .curly ∧ b ≠ .curly))

/-- Whether brackets close each other survives an exchange of both. -/
theorem Nest.Interchanged.closedBy_eq {a a' b b' : Nest} (ha : a.Interchanged a')
    (hb : b.Interchanged b') : a'.closedBy b' = a.closedBy b := by
  rcases ha with rfl | ⟨ha, ha'⟩ <;> rcases hb with rfl | ⟨hb, hb'⟩
  · rfl
  · cases a <;> cases b <;> cases b' <;> simp_all [closedBy]
  · cases a <;> cases a' <;> cases b <;> simp_all [closedBy]
  · cases a <;> cases a' <;> cases b <;> cases b' <;> simp_all [closedBy]

/-- The same character, but for an exchange of round and square brackets to one side. -/
inductive Interchanged : Char → Char → Prop where
  | same (c : Char) : Interchanged c c
  | opening {a b : Char} (ha : a = '(' ∨ a = '[') (hb : b = '(' ∨ b = '[') : Interchanged a b
  | closing {a b : Char} (ha : a = ')' ∨ a = ']') (hb : b = ')' ∨ b = ']') : Interchanged a b

namespace Interchanged

variable {a b : Char}

/-- A function of characters that cannot tell round from square brackets. -/
theorem apply_eq {α : Type} {f : Char → α} (hopen : f '(' = f '[') (hclose : f ')' = f ']')
    (h : Interchanged a b) : f a = f b := by
  cases h with
  | same => rfl
  | opening ha hb => rcases ha with rfl | rfl <;> rcases hb with rfl | rfl <;> simp [hopen]
  | closing ha hb => rcases ha with rfl | rfl <;> rcases hb with rfl | rfl <;> simp [hclose]

theorem isBlank_eq (h : Interchanged a b) : Text.isBlank a = Text.isBlank b :=
  h.apply_eq (by decide) (by decide)

theorem isQuote_eq (h : Interchanged a b) : (a == '"') = (b == '"') :=
  h.apply_eq (f := (· == '"')) (by decide) (by decide)

theorem isQuote_iff (h : Interchanged a b) : b = '"' ↔ a = '"' := by
  rw [← beq_iff_eq, ← h.isQuote_eq, beq_iff_eq]

theorem utf8Size_eq (h : Interchanged a b) : a.utf8Size = b.utf8Size :=
  h.apply_eq (by decide) (by decide)

/-- No other character takes part in an exchange. -/
theorem eq_iff {d : Char} (hd : d ∉ reservedChars) (h : Interchanged a b) : b = d ↔ a = d := by
  have hne : ∀ c ∈ reservedChars, (c == d) = false := by
    rintro c hc
    rw [beq_eq_false_iff_ne]
    rintro rfl
    exact hd hc
  -- `d` is no bracket, so the test for it fails on either bracket
  have hround : ('(' == d) = ('[' == d) := by rw [hne '(' (by decide), hne '[' (by decide)]
  have hsquare : (')' == d) = (']' == d) := by rw [hne ')' (by decide), hne ']' (by decide)]
  have hbeq := h.apply_eq (f := (· == d)) hround hsquare
  rw [← beq_iff_eq, ← hbeq, beq_iff_eq]

theorem opening? (h : Interchanged a b) :
    Option.Rel Nest.Interchanged (Nest.opening? a) (Nest.opening? b) := by
  cases h with
  | same =>
    cases Nest.opening? a with
    | none => exact .none
    | some nest => exact .some (.inl rfl)
  | opening ha hb =>
    rcases ha with rfl | rfl <;> rcases hb with rfl | rfl
    all_goals exact .some (by decide)
  | closing ha hb =>
    rcases ha with rfl | rfl <;> rcases hb with rfl | rfl
    all_goals exact .none

theorem closing? (h : Interchanged a b) :
    Option.Rel Nest.Interchanged (Nest.closing? a) (Nest.closing? b) := by
  cases h with
  | same =>
    cases Nest.closing? a with
    | none => exact .none
    | some nest => exact .some (.inl rfl)
  | opening ha hb =>
    rcases ha with rfl | rfl <;> rcases hb with rfl | rfl
    all_goals exact .none
  | closing ha hb =>
    rcases ha with rfl | rfl <;> rcases hb with rfl | rfl
    all_goals exact .some (by decide)

/-- A test that cannot tell the characters apart holds at the same places of two texts. -/
theorem map_eq {α : Type} {f : Char → α} (hf : ∀ {a b}, Interchanged a b → f a = f b)
    {s t : List Char} (h : List.Forall₂ Interchanged s t) : s.map f = t.map f := by
  induction h with
  | nil => rfl
  | cons hab _ ih => rw [List.map_cons, List.map_cons, hf hab, ih]

end Interchanged

/-! ## Places -/

theorem extract_extract {s : List Char} {a b c d : Nat} (h : a + d ≤ b) :
    (s.extract a b).extract c d = s.extract (a + c) (a + d) := by
  have hlength : min (d - c) (b - a - c) = a + d - (a + c) := by omega
  simp only [List.extract_eq_take_drop, List.drop_take, List.drop_drop, List.take_take, hlength]

/-- Two texts that stand at the same place of two others, between two bounds. -/
def SamePlace (s s' : List Char) (low high : Nat) (t t' : List Char) : Prop :=
  ∃ start stop, low ≤ start ∧ start ≤ stop ∧ stop ≤ high ∧
    t = s.extract start stop ∧ t' = s'.extract start stop

namespace SamePlace

variable {s s' t t' u u' : List Char} {low high : Nat}

theorem drop {n : Nat} (hn : n ≤ s.length) (h : s.length = s'.length) :
    SamePlace s s' 0 s.length (s.drop n) (s'.drop n) := by
  have hwhole : ∀ r : List Char, r.drop n = r.extract n r.length := by
    intro r
    rw [List.extract_eq_take_drop, List.take_of_length_le (by simp)]
  exact ⟨n, s.length, Nat.zero_le n, hn, Nat.le_refl _, hwhole s, h ▸ hwhole s'⟩

theorem take {n : Nat} (hn : n ≤ s.length) : SamePlace s s' 0 s.length (s.take n) (s'.take n) := by
  have hinitial : ∀ r : List Char, r.take n = r.extract 0 n := by simp [List.extract_eq_take_drop]
  exact ⟨0, n, Nat.le_refl 0, Nat.zero_le n, hn, hinitial s, hinitial s'⟩

theorem trans (h : SamePlace s s' low high t t') (h' : SamePlace t t' 0 t.length u u') :
    SamePlace s s' low high u u' := by
  obtain ⟨a, b, hlow, hab, hhigh, rfl, rfl⟩ := h
  obtain ⟨c, d, -, hcd, hd, rfl, rfl⟩ := h'
  have hlength : (s.extract a b).length ≤ b - a := by
    rw [List.extract_eq_take_drop]
    exact List.length_take_le _ _
  have hinside : a + d ≤ b := by omega
  exact ⟨a + c, a + d, by omega, by omega, by omega, extract_extract hinside,
    extract_extract hinside⟩

/-- Texts at the same place differ in brackets only if the whole texts do. -/
theorem forall₂ (h : SamePlace s s' low high t t') (hs : List.Forall₂ Interchanged s s') :
    List.Forall₂ Interchanged t t' := by
  obtain ⟨start, stop, -, -, -, rfl, rfl⟩ := h
  simp only [List.extract_eq_take_drop]
  exact List.forall₂_take _ (List.forall₂_drop _ hs)

end SamePlace

/-! ## Trimming -/

section

variable {s s' : List Char}

/-- Texts with blanks at the same places begin with as many of them. -/
theorem Text.exists_stripStart (h : s.map isBlank = s'.map isBlank) :
    ∃ n ≤ s.length, stripStart s = s.drop n ∧ stripStart s' = s'.drop n := by
  have hfind : ∀ t : List Char,
      t.findIdx (fun c => !isBlank c) = (t.map isBlank).findIdx (fun b => !b) := by
    intro t
    rw [List.findIdx_map]
    rfl
  refine ⟨s.findIdx (fun c => !isBlank c), List.findIdx_le_length,
    List.dropWhile_eq_drop_findIdx_not, ?_⟩
  rw [hfind s, h, ← hfind s']
  exact List.dropWhile_eq_drop_findIdx_not

theorem Text.exists_stripEnd (h : s.map isBlank = s'.map isBlank) :
    ∃ n ≤ s.length, stripEnd s = s.take n ∧ stripEnd s' = s'.take n := by
  have hlength : s.length = s'.length := by simpa using congrArg List.length h
  have hreverse : s.reverse.map isBlank = s'.reverse.map isBlank := by
    rw [List.map_reverse, List.map_reverse, h]
  obtain ⟨n, -, hs, hs'⟩ := exists_stripStart hreverse
  refine ⟨s.length - n, Nat.sub_le _ _, ?_, ?_⟩
  · show (stripStart s.reverse).reverse = _
    rw [hs, List.drop_reverse, List.reverse_reverse]
  · show (stripStart s'.reverse).reverse = _
    rw [hs', List.drop_reverse, List.reverse_reverse, hlength]

theorem samePlace_strip (h : List.Forall₂ Interchanged s s') :
    SamePlace s s' 0 s.length (Text.strip s) (Text.strip s') := by
  obtain ⟨a, ha, hs, hs'⟩ := Text.exists_stripStart (Interchanged.map_eq (·.isBlank_eq) h)
  have hstart : SamePlace s s' 0 s.length (Text.stripStart s) (Text.stripStart s') := by
    rw [hs, hs']
    exact .drop ha h.length_eq
  obtain ⟨b, hb, ht, ht'⟩ :=
    Text.exists_stripEnd (Interchanged.map_eq (·.isBlank_eq) (hstart.forall₂ h))
  refine hstart.trans ?_
  rw [Text.strip, Text.strip, ht, ht']
  exact .take hb

/-- Whether a text is one string is a matter of where its quotes are. -/
theorem Line.isString_eq (h : List.Forall₂ Interchanged s s') : isString s = isString s' := by
  -- it is told by where the quotes are, and these are not exchanged
  have hmask : ∀ t : List Char, isString t =
      ((t.map (· == '"')).head? == some true && (t.map (· == '"')).getLast? == some true &&
        (t.map (· == '"')).count true == 2) := by
    intro t
    have hchar : ∀ c : Option Char, (c == some '"') = (c.map (· == '"') == some true) := by
      intro c
      cases c with
      | none => rfl
      | some c => simp
    have hcount : t.count '"' = (t.map (· == '"')).count true := by
      simp only [List.count, List.countP_map]
      congr 1
      funext c
      simp
    rw [isString, hchar, hchar, hcount, List.head?_map, List.getLast?_map]
  rw [hmask, hmask, Interchanged.map_eq (·.isQuote_eq) h]

/-- **Texts are trimmed to the same place.** -/
theorem samePlace_trim (h : List.Forall₂ Interchanged s s') :
    SamePlace s s' 0 s.length (Line.trim s) (Line.trim s') := by
  have hstrip := samePlace_strip h
  have hstripped := hstrip.forall₂ h
  simp only [Line.trim, ← Line.isString_eq hstripped]
  split
  · next hstring =>
    -- a string has two quotes, so that something stands between its first and last character
    have htwo := (Line.isString_iff_oneString.mp hstring).two_le
    have hinner : SamePlace (Text.strip s) (Text.strip s') 0 (Text.strip s).length
        (Line.inner (Text.strip s)) (Line.inner (Text.strip s')) := by
      refine ⟨1, (Text.strip s).length - 1, by omega, by omega, by omega, ?_, ?_⟩
      · simp [Line.inner, List.extract_eq_take_drop, List.dropLast_eq_take]
      · simp [Line.inner, List.extract_eq_take_drop, List.dropLast_eq_take,
          hstripped.length_eq]
    exact (hstrip.trans hinner).trans (samePlace_strip (hinner.forall₂ hstripped))
  · exact hstrip

end

namespace Line

/-! ## Parts -/

/-- Where a part stands in a line. -/
inductive Place where
  /-- An entry, from the character at `start` up to the one at `stop`. -/
  | entry (start stop : Nat)
  | options (start stop : Nat)
  /-- The end of a statement, at its separator. -/
  | endStmt (start : Nat)
deriving DecidableEq, Repr

namespace Place

def start : Place → Nat
  | .entry start _ => start
  | .options start _ => start
  | .endStmt start => start

def stop : Place → Nat
  | .entry _ stop => stop
  | .options _ stop => stop
  | .endStmt start => start + 1

/-- The part that stands there. -/
def part (line : List Char) : Place → Part
  | .entry start stop => .entry (line.extract start stop)
  | .options start stop => .options (line.extract start stop)
  | .endStmt _ => .endStmt

end Place

/-- Parts that stand at the same places of two lines, one behind the other and between two
bounds. -/
def SamePlaces (line line' : List Char) (low high : Nat) (parts parts' : List Part) : Prop :=
  ∃ places : List Place, parts = places.map (Place.part line) ∧
    parts' = places.map (Place.part line') ∧
    (places.Pairwise fun p q => p.stop ≤ q.start) ∧
    ∀ p ∈ places, low ≤ p.start ∧ p.start ≤ p.stop ∧ p.stop ≤ high

variable {line line' : List Char}

namespace SamePlaces

variable {low mid high : Nat} {parts parts' more more' : List Part}

theorem nil : SamePlaces line line' low high [] [] :=
  ⟨[], rfl, rfl, .nil, nofun⟩

theorem singleton {p : Place} (hlow : low ≤ p.start) (hp : p.start ≤ p.stop)
    (hhigh : p.stop ≤ high) :
    SamePlaces line line' low high [p.part line] [p.part line'] :=
  ⟨[p], rfl, rfl, List.pairwise_singleton _ _, List.forall_mem_singleton.mpr ⟨hlow, hp, hhigh⟩⟩

theorem append (h : SamePlaces line line' low mid parts parts')
    (h' : SamePlaces line line' mid high more more') (hlow : low ≤ mid) (hhigh : mid ≤ high) :
    SamePlaces line line' low high (parts ++ more) (parts' ++ more') := by
  obtain ⟨ps, rfl, rfl, hps, hpbounds⟩ := h
  obtain ⟨qs, rfl, rfl, hqs, hqbounds⟩ := h'
  refine ⟨ps ++ qs, by simp, by simp, List.pairwise_append.mpr ⟨hps, hqs, ?_⟩, ?_⟩
  · intro p hp q hq
    exact Nat.le_trans (hpbounds p hp).2.2 (hqbounds q hq).1
  · intro p hp
    rcases List.mem_append.mp hp with hp | hp
    · have := hpbounds p hp
      omega
    · have := hqbounds p hp
      omega

theorem endStmt {n : Nat} : SamePlaces line line' n (n + 1) [.endStmt] [.endStmt] :=
  singleton (p := .endStmt n) (Nat.le_refl n) (Nat.le_succ n) (Nat.le_refl _)

end SamePlaces

/-- The same fault at the same byte, but for an exchange of the brackets that it names. -/
inductive Fault.Interchanged : Fault → Fault → Prop where
  | unclosedString (offset : Nat) : Interchanged (.unclosedString offset) (.unclosedString offset)
  | unbalanced (offset : Nat) {nest nest' : Nest} (h : nest.Interchanged nest') :
      Interchanged (.unbalanced offset nest) (.unbalanced offset nest')
  | newline : Interchanged .newline .newline

/-! ## Cursors -/

/-- The same mode, inside brackets that were interchanged one by one. -/
inductive Mode.Interchanged : Mode → Mode → Prop where
  | slice {nests nests' : List Nest} (h : List.Forall₂ Nest.Interchanged nests nests') :
      Interchanged (.slice nests) (.slice nests')
  | string (start : Nat) {nests nests' : List Nest}
      (h : List.Forall₂ Nest.Interchanged nests nests') :
      Interchanged (.string start nests) (.string start nests')
  | clause : Interchanged .clause .clause

variable (line line') in
/-- The characters of two lines behind the first `n`. -/
structure Facing (n : Nat) (c c' : Char) : Prop where
  left : (line)[n]? = some c
  right : line'[n]? = some c'
  interchanged : Interchanged c c'

variable (line line') in
/-- Cursors behind the first `n` characters of two lines. What both have taken begins at the
same place. -/
structure Abreast (start n : Nat) (k k' : Cursor) : Prop where
  start_le : start ≤ n
  le_length : n ≤ line.length
  text : k.text = line.extract start n
  text' : k'.text = line'.extract start n
  offset : k'.offset = k.offset
  mode : k.mode.Interchanged k'.mode

variable (line line') in
/-- What the characters in front of `n` do to cursors that are abreast. -/
inductive Parallel (start n : Nat) :
    Except Fault (List Part × Cursor) → Except Fault (List Part × Cursor) → Prop where
  | error {fault fault' : Fault} (hfault : fault.Interchanged fault') :
      Parallel start n (.error fault) (.error fault')
  | ok {mid : Nat} {parts parts' : List Part} {next next' : Cursor}
      (hparts : SamePlaces line line' start mid parts parts') (hmid : start ≤ mid)
      (hnext : Abreast line line' mid n next next') :
      Parallel start n (.ok (parts, next)) (.ok (parts', next'))

variable {start n : Nat} {k k' : Cursor} {c c' : Char}

theorem extract_succ {s : List Char} (hc : s[n]? = some c) (hstart : start ≤ n) :
    s.extract start (n + 1) = s.extract start n ++ [c] := by
  have hget : (s.drop start)[n - start]? = some c := by
    rw [List.getElem?_drop, Nat.add_sub_cancel' hstart, hc]
  have hsucc : n + 1 - start = n - start + 1 := by omega
  rw [List.extract_eq_take_drop, List.extract_eq_take_drop, hsucc, List.take_add_one, hget]
  rfl

theorem Facing.lt_length (hface : Facing line line' n c c') : n < line.length :=
  (List.getElem?_eq_some_iff.mp hface.left).1

namespace Abreast

theorem keep (h : Abreast line line' start n k k') (hface : Facing line line' n c c')
    {mode mode' : Mode} (hmode : mode.Interchanged mode') :
    Abreast line line' start (n + 1) (k.keep c mode) (k'.keep c' mode') where
  start_le := Nat.le_succ_of_le h.start_le
  le_length := hface.lt_length
  text := by rw [Cursor.keep_text, h.text, extract_succ hface.left h.start_le]
  text' := by rw [Cursor.keep_text, h.text', extract_succ hface.right h.start_le]
  offset := by simp [Cursor.keep, h.offset, hface.interchanged.utf8Size_eq]
  mode := hmode

theorem skip (h : Abreast line line' start n k k') (hface : Facing line line' n c c')
    {mode mode' : Mode} (hmode : mode.Interchanged mode') :
    Abreast line line' (n + 1) (n + 1) (k.skip c mode) (k'.skip c' mode') where
  start_le := Nat.le_refl _
  le_length := hface.lt_length
  text := by simp [Cursor.skip_text, List.extract_eq_take_drop]
  text' := by simp [Cursor.skip_text, List.extract_eq_take_drop]
  offset := by simp [Cursor.skip, h.offset, hface.interchanged.utf8Size_eq]
  mode := hmode

theorem samePlace (h : Abreast line line' start n k k') :
    SamePlace line line' start n k.text k'.text :=
  ⟨start, n, Nat.le_refl start, h.start_le, Nat.le_refl n, h.text, h.text'⟩

section

variable (h : Abreast line line' start n k k') (hline : List.Forall₂ Interchanged line line')
include h hline

theorem forall₂_text : List.Forall₂ Interchanged k.text k'.text :=
  h.samePlace.forall₂ hline

theorem samePlace_trim : SamePlace line line' start n (trim k.text) (trim k'.text) :=
  h.samePlace.trans (Lots.samePlace_trim (h.forall₂_text hline))

theorem entry : SamePlaces line line' start n [.entry (trim k.text)] [.entry (trim k'.text)] := by
  obtain ⟨a, b, hlow, hab, hhigh, htext, htext'⟩ := h.samePlace_trim hline
  rw [htext, htext']
  exact .singleton (p := .entry a b) hlow hab hhigh

theorem sliceEntry : SamePlaces line line' start n (sliceEntry k.text) (sliceEntry k'.text) := by
  have hlength := ((h.samePlace_trim hline).forall₂ hline).length_eq
  have hempty : (trim k'.text).isEmpty = (trim k.text).isEmpty := by
    rw [Bool.eq_iff_iff, List.isEmpty_iff_length_eq_zero, List.isEmpty_iff_length_eq_zero, hlength]
  simp only [Line.sliceEntry, hempty]
  split
  · exact .nil
  · exact h.entry hline

theorem options : SamePlaces line line' start n [.options (Text.strip k.text)]
    [.options (Text.strip k'.text)] := by
  obtain ⟨a, b, hlow, hab, hhigh, htext, htext'⟩ :=
    h.samePlace.trans (samePlace_strip (h.forall₂_text hline))
  rw [htext, htext']
  exact .singleton (p := .options a b) hlow hab hhigh

end

end Abreast

/-! ## Steps -/

section

variable (h : Abreast line line' start n k k') (hface : Facing line line' n c c')
include h hface

theorem parallel_keep {mode mode' : Mode} (hmode : mode.Interchanged mode') :
    Parallel line line' start (n + 1) (.ok ([], k.keep c mode)) (.ok ([], k'.keep c' mode')) :=
  .ok .nil (Nat.le_refl start) (h.keep hface hmode)

theorem parallel_stepClosing {closer closer' : Nest} {nests nests' : List Nest}
    (hcloser : closer.Interchanged closer')
    (hnests : List.Forall₂ Nest.Interchanged nests nests') :
    Parallel line line' start (n + 1) (k.stepClosing c closer nests)
      (k'.stepClosing c' closer' nests') := by
  cases hnests with
  | nil =>
    rw [Cursor.stepClosing, Cursor.stepClosing, h.offset]
    exact .error (.unbalanced k.offset hcloser)
  | cons hopener houter =>
    rw [Cursor.stepClosing, Cursor.stepClosing, h.offset, hopener.closedBy_eq hcloser]
    split
    · exact parallel_keep h hface (.slice houter)
    · exact .error (.unbalanced k.offset hopener)

variable (hline : List.Forall₂ Interchanged line line') (sep : Separators)
include hline

/-- A separator is no bracket, so both characters separate or neither does. -/
theorem parallel_stepOutside :
    Parallel line line' start (n + 1) (.ok (k.stepOutside sep c))
      (.ok (k'.stepOutside sep c')) := by
  have hrole : ∀ role, canSeparate role = true → (c' = role ↔ c = role) := fun role hrole =>
    hface.interchanged.eq_iff (Cursor.not_mem_reservedChars_of_canSeparate hrole)
  have hnext : ∀ mode, mode.Interchanged mode → Abreast line line' (n + 1) (n + 1)
      (k.skip c mode) (k'.skip c' mode) := fun mode hmode => h.skip hface hmode
  have hbefore := Nat.le_succ_of_le h.start_le
  simp only [Cursor.stepOutside, hrole sep.entry sep.canSeparate_entry,
    hrole sep.options sep.canSeparate_options, hrole sep.stmt sep.canSeparate_stmt]
  split
  · exact .ok ((h.entry hline).append .nil h.start_le (Nat.le_succ n)) hbefore
      (hnext _ (.slice .nil))
  split
  · have hparts := (h.sliceEntry hline).append .nil h.start_le (Nat.le_succ n)
    rw [List.append_nil, List.append_nil] at hparts
    exact .ok hparts hbefore (hnext _ .clause)
  split
  · exact .ok ((h.sliceEntry hline).append .endStmt h.start_le (Nat.le_succ n)) hbefore
      (hnext _ (.slice .nil))
  · exact parallel_keep h hface (.slice .nil)

theorem parallel_stepSlice {nests nests' : List Nest}
    (hnests : List.Forall₂ Nest.Interchanged nests nests') :
    Parallel line line' start (n + 1) (k.stepSlice sep nests c)
      (k'.stepSlice sep nests' c') := by
  have hopen := hface.interchanged.opening?
  have hclose := hface.interchanged.closing?
  unfold Cursor.stepSlice
  by_cases hquote : c = '"'
  · rw [if_pos hquote, if_pos (hface.interchanged.isQuote_iff.mpr hquote), h.offset]
    exact parallel_keep h hface (.string k.offset hnests)
  rw [if_neg hquote, if_neg (mt hface.interchanged.isQuote_iff.mp hquote)]
  -- from here on only the brackets count that the characters open or close
  generalize Nest.opening? c = opener, Nest.opening? c' = opener',
    Nest.closing? c = closer, Nest.closing? c' = closer' at hopen hclose ⊢
  cases hopen with
  | some hopener => exact parallel_keep h hface (.slice (.cons hopener hnests))
  | none =>
    cases hclose with
    | some hcloser => exact parallel_stepClosing h hface hcloser hnests
    | none =>
      cases hnests with
      | nil => exact parallel_stepOutside h hface hline sep
      | cons hnest houter => exact parallel_keep h hface (.slice (.cons hnest houter))

/-- **Cursors stay abreast.** Facing characters complete parts at the same places, or stop both
cursors at the same fault. -/
theorem parallel_step :
    Parallel line line' start (n + 1) (k.step sep c) (k'.step sep c') := by
  obtain ⟨offset, taken, mode⟩ := k
  obtain ⟨offset', taken', mode'⟩ := k'
  have hmode : mode.Interchanged mode' := h.mode
  cases hmode with
  | slice hnests => exact parallel_stepSlice h hface hline sep hnests
  | string opened hnests =>
    rw [Cursor.step_string rfl, Cursor.step_string rfl]
    by_cases hquote : c = '"'
    · rw [if_pos hquote, if_pos (hface.interchanged.isQuote_iff.mpr hquote)]
      exact parallel_keep h hface (.slice hnests)
    · rw [if_neg hquote, if_neg (mt hface.interchanged.isQuote_iff.mp hquote)]
      exact parallel_keep h hface (.string opened hnests)
  | clause =>
    have hstmt : c' = sep.stmt ↔ c = sep.stmt :=
      hface.interchanged.eq_iff (Cursor.not_mem_reservedChars_of_canSeparate sep.canSeparate_stmt)
    rw [Cursor.step_clause rfl, Cursor.step_clause rfl]
    simp only [hstmt]
    split
    · exact .ok ((h.options hline).append .endStmt h.start_le (Nat.le_succ n))
        (Nat.le_succ_of_le h.start_le) (h.skip hface (.slice .nil))
    · exact parallel_keep h hface .clause

end

/-! ## Lines -/

variable (line line') in
/-- Parts that stand at the same places of two lines from `start` on, and the same fault behind
them. -/
structure SameSplits (start : Nat) (split split' : Split) : Prop where
  parts : SamePlaces line line' start line.length split.parts split'.parts
  fault : Option.Rel Fault.Interchanged split.fault split'.fault

theorem sameSplits_finish (h : Abreast line line' start line.length k k')
    (hline : List.Forall₂ Interchanged line line') :
    SameSplits line line' start k.finish k'.finish := by
  have hempty : k'.taken.isEmpty = k.taken.isEmpty := by
    have hlength := (h.forall₂_text hline).length_eq
    simp only [Cursor.text, List.length_reverse] at hlength
    rw [Bool.eq_iff_iff, List.isEmpty_iff_length_eq_zero, List.isEmpty_iff_length_eq_zero, hlength]
  obtain ⟨offset, taken, mode⟩ := k
  obtain ⟨offset', taken', mode'⟩ := k'
  obtain rfl : offset' = offset := h.offset
  have hmode : mode.Interchanged mode' := h.mode
  cases hmode with
  | slice hnests =>
    cases hnests with
    | nil =>
      refine ⟨?_, .none⟩
      simp only [Cursor.finish, hempty]
      split
      · exact .nil
      · exact h.entry hline
    | cons hnest houter => exact ⟨.nil, .some (.unbalanced offset' hnest)⟩
  | string opened hnests => exact ⟨.nil, .some (.unclosedString opened)⟩
  | clause => exact ⟨h.options hline, .none⟩

/-- Cursors that are abreast split what follows them alike: induction on what follows in the one
line, while the place moves on. -/
theorem sameSplits_splitFrom (sep : Separators) (hline : List.Forall₂ Interchanged line line')
    {s s' : List Char} (hs : line.drop n = s) (hs' : line'.drop n = s')
    (h : Abreast line line' start n k k') :
    SameSplits line line' start (splitFrom sep k s) (splitFrom sep k' s') := by
  induction s generalizing s' start n k k' with
  | nil =>
    have hend : line.length ≤ n := List.drop_eq_nil_iff.mp hs
    have hnil : s' = [] := by
      rw [← hs', List.drop_eq_nil_iff, ← hline.length_eq]
      exact hend
    obtain rfl : n = line.length := Nat.le_antisymm h.le_length hend
    have hfinish := sameSplits_finish h hline
    rw [hnil, Cursor.splitFrom_of_reads .nil, Cursor.splitFrom_of_reads .nil]
    exact hfinish
  | cons c rest ih =>
    have hrest : List.Forall₂ Interchanged (c :: rest) s' := by
      rw [← hs, ← hs']
      exact List.forall₂_drop n hline
    obtain ⟨c', rest', hcc, hrest, rfl⟩ := List.forall₂_cons_left_iff.mp hrest
    -- what both lines still have begins with facing characters, and the places behind move on
    have hface : Facing line line' n c c' := by
      refine ⟨?_, ?_, hcc⟩
      · rw [← List.head?_drop, hs, List.head?_cons]
      · rw [← List.head?_drop, hs', List.head?_cons]
    have hnext : line.drop (n + 1) = rest := by rw [← List.tail_drop, hs, List.tail_cons]
    have hnext' : line'.drop (n + 1) = rest' := by rw [← List.tail_drop, hs', List.tail_cons]
    have hstep := parallel_step h hface hline sep
    generalize hresult : k.step sep c = result,
      hresult' : k'.step sep c' = result' at hstep
    cases hstep with
    | error hfault =>
      rw [splitFrom_cons_of_error hresult, splitFrom_cons_of_error hresult']
      exact ⟨.nil, .some hfault⟩
    | ok hparts hmid hok =>
      have hsplits := ih hnext hnext' hok
      rw [splitFrom_cons_of_ok hresult, splitFrom_cons_of_ok hresult']
      exact ⟨hparts.append hsplits.parts hmid (Nat.le_trans hok.start_le hok.le_length),
        hsplits.fault⟩

/-- **Round and square brackets are interchangeable.** Lines that differ in them only, anywhere,
have their parts at the same places, in order and of the same kinds, so that the texts differ
as the lines do there. One has a fault exactly if the other has, and then it is the same at the
same byte; the brackets that it names differ only as brackets of the lines may. -/
theorem split_interchange (sep : Separators) {line line' : List Char}
    (h : List.Forall₂ Interchanged line line') :
    SamePlaces line line' 0 line.length (split sep line).parts (split sep line').parts ∧
      Option.Rel Fault.Interchanged (split sep line).fault (split sep line').fault := by
  -- a line feed is no bracket: both lines are refused for one, or neither is
  have hnewline : line'.contains '\n' = line.contains '\n' := by
    have hmask := Interchanged.map_eq (f := (· == '\n'))
      (fun hab => hab.apply_eq (f := (· == '\n')) (by decide) (by decide)) h
    have hany : ∀ s : List Char, s.contains '\n' = (s.map (· == '\n')).any id := by
      intro s
      rw [List.any_map, List.contains_eq_any_beq]
      congr 1
      funext c
      exact Bool.beq_comm
    rw [hany, hany, hmask]
  unfold split
  rw [hnewline]
  split
  · exact ⟨.nil, .some .newline⟩
  · have hnothing : ∀ s : List Char, s.extract 0 0 = [] := by simp [List.extract_eq_take_drop]
    have hstart : Abreast line line' 0 0 ({} : Cursor) {} :=
      ⟨Nat.le_refl 0, Nat.zero_le _, (hnothing line).symm, (hnothing line').symm, rfl, .slice .nil⟩
    have hsplits := sameSplits_splitFrom sep h rfl rfl hstart
    exact ⟨hsplits.parts, hsplits.fault⟩

/-- Brackets exchanged around an entry, inside a string and in a clause. The fault is the missing
closer of the innermost ones, which are inside curly brackets. -/
theorem split_interchange_everywhere :
    let line := ['(', 'a', ',', ']', ';', '"', ')', '"', '/', '[', ';', '{', '(']
    let line' := ['[', 'a', ',', ')', ';', '"', ']', '"', '/', '(', ';', '{', '[']
    List.Forall₂ Interchanged line line' ∧
      SamePlaces line line' 0 13
        [.entry ['(', 'a', ',', ']'], .endStmt, .entry [')'], .options ['['], .endStmt]
        [.entry ['[', 'a', ',', ')'], .endStmt, .entry [']'], .options ['('], .endStmt] ∧
      Option.Rel Fault.Interchanged (some (.unbalanced 13 .paren))
        (some (.unbalanced 13 .square)) := by
  intro line line'
  have hopen : Interchanged '(' '[' := .opening (.inl rfl) (.inr rfl)
  have hopen' : Interchanged '[' '(' := .opening (.inr rfl) (.inl rfl)
  have hclose : Interchanged ')' ']' := .closing (.inl rfl) (.inr rfl)
  have hclose' : Interchanged ']' ')' := .closing (.inr rfl) (.inl rfl)
  have hline : List.Forall₂ Interchanged line line' :=
    .cons hopen <| .cons (.same _) <| .cons (.same _) <| .cons hclose' <| .cons (.same _) <|
      .cons (.same _) <| .cons hclose <| .cons (.same _) <| .cons (.same _) <| .cons hopen' <|
      .cons (.same _) <| .cons (.same _) <| .cons hopen .nil
  exact ⟨hline, split_interchange {} hline⟩

end Line

end Lots
