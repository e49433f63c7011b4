import Lots.Separators

/-!
# Lots — the parts of a query line

A query line is read character by character into parts: entries, options clauses
and statement ends. Separators count only outside strings and brackets, and an
options clause runs to the next statement separator whatever it holds. A cursor
carries what one character hands to the next, so a line is read as the fold of
`Cursor.step`, ended by `Cursor.finish`.

`split` gives the parts read before the first fault, and the fault. Offsets count
bytes of the line's UTF-8 form. Reading in two goes is reading in one
(`Cursor.read_append`).
-/

namespace Lots

/-! ## Brackets -/

inductive Nest where
  | paren
  | square
  | curly
deriving DecidableEq, Repr

namespace Nest

/-- The brackets that a character opens. -/
def opening? : Char → Option Nest
  | '(' => some .paren
  | '[' => some .square
  | '{' => some .curly
  | _ => none

/-- The brackets that a character closes. -/
def closing? : Char → Option Nest
  | ')' => some .paren
  | ']' => some .square
  | '}' => some .curly
  | _ => none

/-- Round and square brackets close each other, since intervals mix them; curly
brackets close only themselves. -/
def closedBy : Nest → Nest → Bool
  | .curly, .curly => true
  | .curly, _ => false
  | _, .curly => false
  | _, _ => true

def name : Nest → String
  | .paren => "parenthesis"
  | .square => "square brackets"
  | .curly => "curly braces"

end Nest

namespace Line

/-! ## Parts and faults -/

inductive Part where
  /-- An entry, trimmed. -/
  | entry (text : List Char)
  /-- An options clause, stripped. -/
  | options (text : List Char)
  | endStmt
deriving DecidableEq, Repr

/-- Why a line cannot be read further. -/
inductive Fault where
  /-- The string that opens at this offset is never closed. -/
  | unclosedString (offset : Nat)
  /-- At this offset, brackets of this kind are closed but not open, or open but
  closed by another kind or by the end of the line. -/
  | unbalanced (offset : Nat) (nest : Nest)
  /-- The text holds a line feed, so it is not one line. -/
  | newline
deriving DecidableEq, Repr

def Fault.offset? : Fault → Option Nat
  | .unclosedString offset => some offset
  | .unbalanced offset _ => some offset
  | .newline => none

def Fault.message : Fault → String
  | .newline => "unexpected newline inside a single line"
  | .unclosedString _ => "inline entries: missing trailing '\"' to close a string"
  | .unbalanced _ nest => "inline entries: unbalanced " ++ nest.name

/-- The parts of a line before its first fault, and that fault. -/
structure Split where
  parts : List Part
  fault : Option Fault
deriving DecidableEq, Repr

/-- A split with more parts in front. -/
def Split.after (parts : List Part) (split : Split) : Split :=
  { split with parts := parts ++ split.parts }

/-! ## Trimming -/

/-- The text between the first and the last character. -/
def inner (s : List Char) : List Char :=
  s.tail.dropLast

/-- Whether a text is one string: quotes at both ends and nowhere else. -/
def isString (s : List Char) : Bool :=
  s.head? == some '"' && s.getLast? == some '"' && s.count '"' == 2

/-- An entry's text: stripped, and if it is one string, the string's contents,
stripped as well. -/
def trim (s : List Char) : List Char :=
  let s := Text.strip s
  if isString s then Text.strip (inner s) else s

/-- The entry that a slice of a line gives, if it is not empty. -/
def sliceEntry (slice : List Char) : List Part :=
  let text := trim slice
  if text.isEmpty then [] else [.entry text]

/-! ## Reading -/

/-- What the character at a cursor belongs to. -/
inductive Mode where
  /-- An entry, inside these brackets, innermost first. -/
  | slice (nests : List Nest)
  /-- A string that opened at this offset, inside these brackets. -/
  | string (start : Nat) (nests : List Nest)
  | clause
deriving DecidableEq, Repr

/-- A place between two characters of a line. -/
structure Cursor where
  /-- Bytes before the cursor. -/
  offset : Nat := 0
  /-- Characters of the entry or clause before the cursor, last one first. -/
  taken : List Char := []
  mode : Mode := .slice []
deriving DecidableEq, Repr

namespace Cursor

/-- The text of the entry or clause before the cursor. -/
def text (k : Cursor) : List Char :=
  k.taken.reverse

/-- The cursor after a character that belongs to the text being read. -/
def keep (k : Cursor) (c : Char) (mode : Mode) : Cursor :=
  { offset := k.offset + c.utf8Size, taken := c :: k.taken, mode }

/-- The cursor after a separator: a new text begins. -/
def skip (k : Cursor) (c : Char) (mode : Mode) : Cursor :=
  { offset := k.offset + c.utf8Size, taken := [], mode }

/-- Reads a character of an entry outside strings and brackets: a separator ends
the entry, anything else belongs to it. -/
def stepOutside (sep : Separators) (k : Cursor) (c : Char) : List Part × Cursor :=
  if c = sep.entry then ([.entry (trim k.text)], k.skip c (.slice []))
  else if c = sep.options then (sliceEntry k.text, k.skip c .clause)
  else if c = sep.stmt then (sliceEntry k.text ++ [.endStmt], k.skip c (.slice []))
  else ([], k.keep c (.slice []))

/-- Reads a closing bracket inside the given brackets. -/
def stepClosing (k : Cursor) (c : Char) (closer : Nest) :
    List Nest → Except Fault (List Part × Cursor)
  | [] => .error (.unbalanced k.offset closer)
  | opener :: outer =>
    if opener.closedBy closer then .ok ([], k.keep c (.slice outer))
    else .error (.unbalanced k.offset opener)

/-- Reads a character of an entry outside strings. -/
def stepSlice (sep : Separators) (k : Cursor) (nests : List Nest) (c : Char) :
    Except Fault (List Part × Cursor) :=
  if c = '"' then .ok ([], k.keep c (.string k.offset nests))
  else
    match Nest.opening? c, Nest.closing? c with
    | some opener, _ => .ok ([], k.keep c (.slice (opener :: nests)))
    | none, some closer => k.stepClosing c closer nests
    | none, none =>
      if nests.isEmpty then .ok (k.stepOutside sep c) else .ok ([], k.keep c (.slice nests))

/-- Reads one character: the parts it completes, and the cursor after it. -/
def step (sep : Separators) (k : Cursor) (c : Char) : Except Fault (List Part × Cursor) :=
  match k.mode with
  | .slice nests => k.stepSlice sep nests c
  | .string start nests =>
    .ok ([], k.keep c (if c = '"' then .slice nests else .string start nests))
  | .clause =>
    if c = sep.stmt then
      .ok ([.options (Text.strip k.text), .endStmt], k.skip c (.slice []))
    else .ok ([], k.keep c .clause)

/-- Ends the line at a cursor. An entry is read if any character of it is there,
even if nothing remains of it once it is trimmed. -/
def finish (k : Cursor) : Split :=
  match k.mode with
  | .slice [] => ⟨if k.taken.isEmpty then [] else [.entry (trim k.text)], none⟩
  | .slice (nest :: _) => ⟨[], some (.unbalanced k.offset nest)⟩
  | .string start _ => ⟨[], some (.unclosedString start)⟩
  | .clause => ⟨[.options (Text.strip k.text)], none⟩

/-- Reads characters: the parts they complete, and the cursor after them, or the fault
that stops it. -/
def read (sep : Separators) (k : Cursor) : List Char → List Part × Except Fault Cursor
  | [] => ([], .ok k)
  | c :: rest =>
    match k.step sep c with
    | .error fault => ([], .error fault)
    | .ok (parts, next) =>
      let (more, result) := next.read sep rest
      (parts ++ more, result)

/-- Reading in two goes is reading in one. -/
theorem read_append (sep : Separators) (k : Cursor) (s t : List Char) :
    k.read sep (s ++ t) =
      match k.read sep s with
      | (parts, .error fault) => (parts, .error fault)
      | (parts, .ok next) => (parts ++ (next.read sep t).1, (next.read sep t).2) := by
  induction s generalizing k with
  | nil => simp [read]
  | cons c rest ih =>
    simp only [List.cons_append, read]
    cases hstep : k.step sep c with
    | error fault => rfl
    | ok stepped =>
      obtain ⟨parts, next⟩ := stepped
      simp only [ih]
      -- the rest of the first go either stops at a fault or hands a cursor on
      cases hread : next.read sep rest with
      | mk more result => cases result <;> simp

end Cursor

/-- Splits what follows a cursor. -/
def splitFrom (sep : Separators) (k : Cursor) (s : List Char) : Split :=
  match k.read sep s with
  | (parts, .error fault) => ⟨parts, some fault⟩
  | (parts, .ok last) => last.finish.after parts

/-- Splits a line. A text of several lines has no parts. -/
def split (sep : Separators) (line : List Char) : Split :=
  if line.contains '\n' then ⟨[], some .newline⟩ else splitFrom sep {} line

end Line

end Lots
