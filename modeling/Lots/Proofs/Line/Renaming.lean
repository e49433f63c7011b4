import Lots.Proofs.Line.Gluing
import Mathlib.Data.List.Count
import Mathlib.Logic.Equiv.Basic

/-!
# Lots — lines in other characters

No character but quotes, brackets and blanks has a meaning of its own: the three separators
mean what they do by their roles. A `Renaming` exchanges all other characters for each
other, and whatever is done with a line commutes with it, if the separators are renamed as
well.

* **`trim_map`** — the text of an entry is trimmed alike, because blanks and quotes stay.
* **`Twin`** — two cursors that stand behind the same characters, renamed for one of them.
  Offsets count bytes, and a renamed character may have another size, so the two offsets
  differ; `alike_step` keeps the cursors together.
* **`split_rename`** — a renamed line has the renamed parts, and its fault at the same character.
-/

namespace Lots

/-- A permutation of the characters that leaves quotes, brackets and blanks where they are. -/
structure Renaming where
  perm : Equiv.Perm Char
  apply_reserved : ∀ c ∈ reservedChars, perm c = c
  apply_blank : ∀ c, Text.isBlank c = true → perm c = c

namespace Renaming

instance : CoeFun Renaming fun _ => Char → Char := ⟨fun f => f.perm⟩

/-- Two characters that may separate can be exchanged. -/
def exchange (a b : Char) (ha : canSeparate a = true) (hb : canSeparate b = true) :
    Renaming where
  perm := Equiv.swap a b
  apply_reserved c hc := by
    have hne : ∀ d, canSeparate d = true → c ≠ d := by
      rintro d hd rfl
      simp [canSeparate, hc] at hd
    exact Equiv.swap_apply_of_ne_of_ne (hne a ha) (hne b hb)
  apply_blank c hc := by
    have hne : ∀ d, canSeparate d = true → c ≠ d := by
      rintro d hd rfl
      simp [canSeparate, hc] at hd
    exact Equiv.swap_apply_of_ne_of_ne (hne a ha) (hne b hb)

variable (f : Renaming)

theorem injective : Function.Injective f :=
  f.perm.injective

/-! ## Characters -/

/-- Nothing else becomes a character that stays. -/
theorem apply_eq_iff {a c : Char} (ha : f a = a) : f c = a ↔ c = a := by
  constructor
  · intro hc
    exact f.injective (hc.trans ha.symm)
  · rintro rfl
    exact ha

theorem apply_mem_reservedChars_iff (c : Char) : f c ∈ reservedChars ↔ c ∈ reservedChars := by
  constructor
  · intro hc
    have hfix : f (f c) = f c := f.apply_reserved (f c) hc
    rwa [f.injective hfix] at hc
  · intro hc
    rwa [f.apply_reserved c hc]

theorem isBlank_apply (c : Char) : Text.isBlank (f c) = Text.isBlank c := by
  rw [Bool.eq_iff_iff]
  constructor
  · intro hc
    have hfix : f (f c) = f c := f.apply_blank (f c) hc
    rwa [f.injective hfix] at hc
  · intro hc
    rwa [f.apply_blank c hc]

theorem canSeparate_apply (c : Char) : canSeparate (f c) = canSeparate c := by
  have hreserved : reservedChars.contains (f c) = reservedChars.contains c := by
    rw [Bool.eq_iff_iff, List.contains_iff_mem, List.contains_iff_mem]
    exact f.apply_mem_reservedChars_iff c
  rw [canSeparate, canSeparate, hreserved, f.isBlank_apply]

theorem apply_quote : f '"' = '"' :=
  f.apply_reserved '"' (by decide)

theorem opening?_apply (c : Char) : Nest.opening? (f c) = Nest.opening? c := by
  by_cases hc : c ∈ reservedChars
  · rw [f.apply_reserved c hc]
  · rw [Nest.opening?_of_not_reserved hc,
      Nest.opening?_of_not_reserved (mt (f.apply_mem_reservedChars_iff c).mp hc)]

theorem closing?_apply (c : Char) : Nest.closing? (f c) = Nest.closing? c := by
  by_cases hc : c ∈ reservedChars
  · rw [f.apply_reserved c hc]
  · rw [Nest.closing?_of_not_reserved hc,
      Nest.closing?_of_not_reserved (mt (f.apply_mem_reservedChars_iff c).mp hc)]

end Renaming

/-- Separators in other characters may separate as well. -/
def Separators.rename (f : Renaming) (sep : Separators) : Separators where
  stmt := f sep.stmt
  entry := f sep.entry
  options := f sep.options
  canSeparate_stmt := (f.canSeparate_apply _).trans sep.canSeparate_stmt
  canSeparate_entry := (f.canSeparate_apply _).trans sep.canSeparate_entry
  canSeparate_options := (f.canSeparate_apply _).trans sep.canSeparate_options
  stmt_ne_entry := f.injective.ne sep.stmt_ne_entry
  stmt_ne_options := f.injective.ne sep.stmt_ne_options
  entry_ne_options := f.injective.ne sep.entry_ne_options

/-! ## Texts -/

section

variable (f : Renaming)

theorem Text.stripStart_map (s : List Char) : stripStart (s.map f) = (stripStart s).map f := by
  have hblank : isBlank ∘ f = isBlank := funext f.isBlank_apply
  rw [stripStart, List.dropWhile_map, hblank]
  rfl

theorem Text.strip_map (s : List Char) : strip (s.map f) = (strip s).map f := by
  have hend : ∀ t : List Char, stripEnd (t.map f) = (stripEnd t).map f := by
    intro t
    have hstart : stripStart (t.reverse.map f) = (stripStart t.reverse).map f :=
      stripStart_map f t.reverse
    show (stripStart (t.map f).reverse).reverse = _
    rw [← List.map_reverse, hstart, ← List.map_reverse]
    rfl
  rw [strip, stripStart_map, hend]
  rfl

namespace Line

theorem isString_map (s : List Char) : isString (s.map f) = isString s := by
  have hchar : ∀ c : Option Char, (c.map f == some '"') = (c == some '"') := by
    intro c
    cases c with
    | none => rfl
    | some c =>
      rw [Bool.eq_iff_iff, beq_iff_eq, beq_iff_eq]
      simpa using f.apply_eq_iff f.apply_quote
  have hcount : (s.map f).count '"' = s.count '"' := by
    have hmap := List.count_map_of_injective s f f.injective '"'
    rwa [f.apply_quote] at hmap
  simp only [isString, List.head?_map, List.getLast?_map, hchar, hcount]

theorem trim_map (s : List Char) : trim (s.map f) = (trim s).map f := by
  have hinner : inner ((Text.strip s).map f) = (inner (Text.strip s)).map f := by
    simp [inner, List.map_tail, List.map_dropLast]
  simp only [trim, Text.strip_map, isString_map]
  split
  · rw [hinner, Text.strip_map]
  · rfl

/-! ## Parts and faults -/

def Part.rename : Part → Part
  | .entry text => .entry (text.map f)
  | .options text => .options (text.map f)
  | .endStmt => .endStmt

theorem sliceEntry_map (s : List Char) :
    sliceEntry (s.map f) = (sliceEntry s).map (Part.rename f) := by
  simp only [sliceEntry, trim_map, List.isEmpty_map]
  split
  · rfl
  · rfl

/-- The same fault of a line and of the renamed line, at the same character: the one with the
beginning `s` of the line in front. -/
inductive SameFault (line : List Char) : Fault → Fault → Prop where
  | unclosedString {s : List Char} (hs : s <+: line) :
      SameFault line (.unclosedString (bytes s)) (.unclosedString (bytes (s.map f)))
  | unbalanced {s : List Char} (nest : Nest) (hs : s <+: line) :
      SameFault line (.unbalanced (bytes s) nest) (.unbalanced (bytes (s.map f)) nest)
  | newline : SameFault line .newline .newline

theorem SameFault.mono {line whole : List Char} {fault fault' : Fault}
    (h : SameFault f line fault fault') (hline : line <+: whole) :
    SameFault f whole fault fault' := by
  cases h with
  | unclosedString hs => exact .unclosedString (hs.trans hline)
  | unbalanced nest hs => exact .unbalanced nest (hs.trans hline)
  | newline => exact .newline

theorem bytes_map {s : List Char} (h : ∀ c ∈ s, (f c).utf8Size = c.utf8Size) :
    bytes (s.map f) = bytes s := by
  induction s with
  | nil => rfl
  | cons c rest ih =>
    obtain ⟨hc, hrest⟩ := List.forall_mem_cons.mp h
    rw [List.map_cons, bytes_cons, bytes_cons, hc, ih hrest]

/-- Characters of their old sizes have the fault at its old offset. -/
theorem SameFault.eq {line : List Char} {fault fault' : Fault}
    (h : SameFault f line fault fault') (hline : ∀ c ∈ line, (f c).utf8Size = c.utf8Size) :
    fault' = fault := by
  cases h with
  | unclosedString hs => rw [bytes_map f fun c hc => hline c (hs.subset hc)]
  | unbalanced nest hs => rw [bytes_map f fun c hc => hline c (hs.subset hc)]
  | newline => rfl

/-! ## Cursors -/

/-- The same mode behind a text and behind the renamed text. A string opened at the same
character. -/
inductive SameMode (before : List Char) : Mode → Mode → Prop where
  | slice (nests : List Nest) : SameMode before (.slice nests) (.slice nests)
  | string {s : List Char} (nests : List Nest) (hs : s <+: before) :
      SameMode before (.string (bytes s) nests) (.string (bytes (s.map f)) nests)
  | clause : SameMode before .clause .clause

/-- A cursor behind a text, and one behind the renamed text that has done the same. -/
structure Twin (before : List Char) (k k' : Cursor) : Prop where
  offset : k.offset = bytes before
  offset' : k'.offset = bytes (before.map f)
  taken : k'.taken = k.taken.map f
  mode : SameMode f before k.mode k'.mode

/-- What a character does to a cursor and to its twin. -/
inductive Alike (before : List Char) :
    Except Fault (List Part × Cursor) → Except Fault (List Part × Cursor) → Prop where
  | error {fault fault' : Fault} (hfault : SameFault f before fault fault') :
      Alike before (.error fault) (.error fault')
  | ok {next next' : Cursor} (parts : List Part) (hnext : Twin f before next next') :
      Alike before (.ok (parts, next)) (.ok (parts.map (Part.rename f), next'))

variable {f} {before : List Char} {k k' : Cursor} {c : Char}

namespace Twin

theorem text (h : Twin f before k k') : k'.text = k.text.map f := by
  rw [Cursor.text, h.taken, ← List.map_reverse]
  rfl

theorem keep (h : Twin f before k k') {mode mode' : Mode}
    (hmode : SameMode f (before ++ [c]) mode mode') :
    Twin f (before ++ [c]) (k.keep c mode) (k'.keep (f c) mode') where
  offset := by simp [Cursor.keep, h.offset]
  offset' := by simp [Cursor.keep, h.offset']
  taken := by simp [Cursor.keep, h.taken]
  mode := hmode

theorem skip (h : Twin f before k k') {mode mode' : Mode}
    (hmode : SameMode f (before ++ [c]) mode mode') :
    Twin f (before ++ [c]) (k.skip c mode) (k'.skip (f c) mode') where
  offset := by simp [Cursor.skip, h.offset]
  offset' := by simp [Cursor.skip, h.offset']
  taken := rfl
  mode := hmode

end Twin

theorem alike_stepClosing (h : Twin f before k k') (closer : Nest) (nests : List Nest) :
    Alike f (before ++ [c]) (k.stepClosing c closer nests)
      (k'.stepClosing (f c) closer nests) := by
  have hfault : ∀ nest, SameFault f (before ++ [c]) (.unbalanced k.offset nest)
      (.unbalanced k'.offset nest) := by
    intro nest
    rw [h.offset, h.offset']
    exact .unbalanced nest (List.prefix_append before [c])
  cases nests with
  | nil => exact .error (hfault closer)
  | cons opener outer =>
    rw [Cursor.stepClosing, Cursor.stepClosing]
    split
    · exact .ok [] (h.keep (.slice outer))
    · exact .error (hfault opener)

/-- A character takes a role of the separators exactly if its renaming takes that role of the
renamed ones. -/
theorem alike_stepOutside {sep : Separators} (h : Twin f before k k') :
    Alike f (before ++ [c]) (.ok (k.stepOutside sep c))
      (.ok (k'.stepOutside (sep.rename f) (f c))) := by
  have hrole : ∀ role : Char, f c = f role ↔ c = role := fun _ => f.injective.eq_iff
  simp only [Cursor.stepOutside, Separators.rename, hrole, h.text, trim_map, sliceEntry_map]
  split
  · exact .ok [.entry (trim k.text)] (h.skip (.slice []))
  split
  · exact .ok (sliceEntry k.text) (h.skip .clause)
  split
  · have hparts : (sliceEntry k.text).map (Part.rename f) ++ [Part.endStmt] =
        (sliceEntry k.text ++ [Part.endStmt]).map (Part.rename f) := by
      rw [List.map_append]
      rfl
    rw [hparts]
    exact .ok (sliceEntry k.text ++ [Part.endStmt]) (h.skip (.slice []))
  · exact .ok [] (h.keep (.slice []))

theorem alike_stepSlice {sep : Separators} (h : Twin f before k k') (nests : List Nest) :
    Alike f (before ++ [c]) (k.stepSlice sep nests c)
      (k'.stepSlice (sep.rename f) nests (f c)) := by
  unfold Cursor.stepSlice
  rw [f.opening?_apply, f.closing?_apply]
  by_cases hquote : c = '"'
  · have hquote' : f c = '"' := (f.apply_eq_iff f.apply_quote).mpr hquote
    rw [if_pos hquote, if_pos hquote', h.offset, h.offset']
    exact .ok [] (h.keep (.string nests (List.prefix_append before [c])))
  have hquote' : f c ≠ '"' := mt (f.apply_eq_iff f.apply_quote).mp hquote
  rw [if_neg hquote, if_neg hquote']
  split
  · next opener _ => exact .ok [] (h.keep (.slice (opener :: nests)))
  · next closer _ _ => exact alike_stepClosing h closer nests
  · split
    · exact alike_stepOutside h
    · exact .ok [] (h.keep (.slice nests))

/-- **Twins stay twins.** One character and its renaming complete the same parts, renamed, or
stop both cursors at the same fault. -/
theorem alike_step (sep : Separators) (c : Char) (h : Twin f before k k') :
    Alike f (before ++ [c]) (k.step sep c) (k'.step (sep.rename f) (f c)) := by
  obtain ⟨offset, taken, mode⟩ := k
  obtain ⟨offset', taken', mode'⟩ := k'
  have hmode : SameMode f before mode mode' := h.mode
  cases hmode with
  | slice nests => exact alike_stepSlice h nests
  | string nests hs =>
    have hinside := hs.trans (List.prefix_append before [c])
    rw [Cursor.step_string rfl, Cursor.step_string rfl]
    by_cases hquote : c = '"'
    · have hquote' : f c = '"' := (f.apply_eq_iff f.apply_quote).mpr hquote
      rw [if_pos hquote, if_pos hquote']
      exact .ok [] (h.keep (.slice nests))
    · have hquote' : f c ≠ '"' := mt (f.apply_eq_iff f.apply_quote).mp hquote
      rw [if_neg hquote, if_neg hquote']
      exact .ok [] (h.keep (.string nests hinside))
  | clause =>
    rw [Cursor.step_clause rfl, Cursor.step_clause rfl]
    by_cases hstmt : c = sep.stmt
    · have hstmt' : f c = (sep.rename f).stmt := congrArg f hstmt
      rw [if_pos hstmt, if_pos hstmt', h.text, Text.strip_map]
      exact .ok [.options (Text.strip _), .endStmt] (h.skip (.slice []))
    · have hstmt' : f c ≠ (sep.rename f).stmt := f.injective.ne hstmt
      rw [if_neg hstmt, if_neg hstmt']
      exact .ok [] (h.keep .clause)

/-! ## Lines -/

variable (f) in
/-- The same split of a line and of the renamed line. -/
def SameSplit (line : List Char) (split split' : Split) : Prop :=
  split'.parts = split.parts.map (Part.rename f) ∧
    Option.Rel (SameFault f line) split.fault split'.fault

theorem sameSplit_finish (h : Twin f before k k') : SameSplit f before k.finish k'.finish := by
  obtain ⟨offset, taken, mode⟩ := k
  obtain ⟨offset', taken', mode'⟩ := k'
  obtain rfl : offset = bytes before := h.offset
  obtain rfl : offset' = bytes (before.map f) := h.offset'
  obtain rfl : taken' = taken.map f := h.taken
  have hmode : SameMode f before mode mode' := h.mode
  have htext := h.text
  cases hmode with
  | slice nests =>
    cases nests with
    | nil =>
      refine ⟨?_, .none⟩
      simp only [Cursor.finish, htext, trim_map, List.isEmpty_map]
      split
      · rfl
      · rfl
    | cons nest outer => exact ⟨rfl, .some (.unbalanced nest List.prefix_rfl)⟩
  | string nests hs => exact ⟨rfl, .some (.unclosedString hs)⟩
  | clause =>
    refine ⟨?_, .none⟩
    simp only [Cursor.finish, htext, Text.strip_map]
    rfl

theorem SameSplit.after {line : List Char} {split split' : Split}
    (h : SameSplit f line split split') (parts : List Part) :
    SameSplit f line (split.after parts) (split'.after (parts.map (Part.rename f))) := by
  refine ⟨?_, h.2⟩
  show parts.map (Part.rename f) ++ split'.parts = (parts ++ split.parts).map (Part.rename f)
  rw [h.1, List.map_append]

/-- Twins split what follows them alike: induction on the text, with the text in front growing. -/
theorem sameSplit_splitFrom {sep : Separators} (s : List Char) (h : Twin f before k k') :
    SameSplit f (before ++ s) (splitFrom sep k s) (splitFrom (sep.rename f) k' (s.map f)) := by
  induction s generalizing before k k' with
  | nil =>
    rw [List.append_nil]
    exact (sameSplit_finish h).after []
  | cons c rest ih =>
    have hbefore : before ++ c :: rest = before ++ [c] ++ rest := by simp
    have hstep := alike_step sep c h
    rw [hbefore]
    generalize hresult : k.step sep c = result at hstep
    generalize hresult' : k'.step (sep.rename f) (f c) = result' at hstep
    cases hstep with
    | error hfault =>
      rw [List.map_cons, splitFrom_cons_of_error hresult, splitFrom_cons_of_error hresult']
      exact ⟨rfl, .some (hfault.mono f (List.prefix_append _ rest))⟩
    | ok parts hnext =>
      rw [List.map_cons, splitFrom_cons_of_ok hresult, splitFrom_cons_of_ok hresult']
      exact (ih hnext).after parts

end Line

end

namespace Line

/-- **Separators mean no more than their roles.** Renamed separators are separators again. A
line in other characters has the same parts in those characters before its fault, and the
same fault at the same character; its offset is the same as well, if each character keeps its
size. -/
theorem split_rename (f : Renaming) (sep : Separators) (line : List Char) :
    Separators.ofTexts [f sep.stmt] [f sep.entry] [f sep.options] = .ok (sep.rename f) ∧
      (split (sep.rename f) (line.map f)).parts = (split sep line).parts.map (Part.rename f) ∧
      Option.Rel (SameFault f line) (split sep line).fault
        (split (sep.rename f) (line.map f)).fault ∧
      ((∀ c ∈ line, (f c).utf8Size = c.utf8Size) →
        (split (sep.rename f) (line.map f)).fault = (split sep line).fault) := by
  have hvalid : Separators.ofTexts [f sep.stmt] [f sep.entry] [f sep.options] =
      .ok (sep.rename f) := Separators.ofTexts_eq_ok_iff.mpr ⟨rfl, rfl, rfl⟩
  have hsame : SameSplit f line (split sep line) (split (sep.rename f) (line.map f)) := by
    have hnewline : (line.map f).contains '\n' = line.contains '\n' := by
      have hfix : f '\n' = '\n' := f.apply_blank '\n' (by decide)
      rw [Bool.eq_iff_iff, List.contains_iff_mem, List.contains_iff_mem, List.mem_map]
      constructor
      · rintro ⟨c, hc, hfc⟩
        rwa [← (f.apply_eq_iff hfix).mp hfc]
      · intro hmem
        exact ⟨'\n', hmem, hfix⟩
    unfold split
    rw [hnewline]
    split
    · exact ⟨rfl, .some .newline⟩
    · have hstart : Twin f [] ({} : Cursor) {} := ⟨rfl, rfl, rfl, .slice []⟩
      exact sameSplit_splitFrom line hstart
  refine ⟨hvalid, hsame.1, hsame.2, fun hsize => ?_⟩
  have hfaults := hsame.2
  generalize (split sep line).fault = fault at hfaults ⊢
  generalize (split (sep.rename f) (line.map f)).fault = fault' at hfaults ⊢
  cases hfaults with
  | none => rfl
  | some hfault => rw [hfault.eq f hsize]

/-- The entry and the statement separator exchanged. The bracket is missed at the same byte. -/
theorem split_rename_exchanged :
    let f := Renaming.exchange ',' ';' (by decide) (by decide)
    let line := ['é', ',', 'b', ';', '(']
    let split' := split (Separators.rename f {}) ['é', ';', 'b', ',', '(']
    (∀ c ∈ line, (f c).utf8Size = c.utf8Size) ∧
      (split {} line).parts = [.entry ['é'], .entry ['b'], .endStmt] ∧
      split'.parts = [.entry ['é'], .entry ['b'], .endStmt] ∧
      split'.fault = some (.unbalanced 6 .paren) := by
  intro f line split'
  have hsize : ∀ c ∈ line, (f c).utf8Size = c.utf8Size := by
    simp only [line, List.forall_mem_cons]
    exact ⟨by decide, by decide, by decide, by decide, by decide, nofun⟩
  have hline : line.map f = ['é', ';', 'b', ',', '('] := by decide
  have hparts : (split {} line).parts = [.entry ['é'], .entry ['b'], .endStmt] := by decide
  obtain ⟨-, hparts', -, hfault⟩ := split_rename f {} line
  rw [hline, hparts] at hparts'
  rw [hline] at hfault
  exact ⟨hsize, hparts, hparts', hfault hsize⟩

end Line

end Lots
