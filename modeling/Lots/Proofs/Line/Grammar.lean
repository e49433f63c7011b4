import Lots.Line

/-!
# Lots — the grammar of query lines

What a query line is, said without a cursor. A line is a row of statements with a
statement separator behind each but the last. A statement is a row of slices with an
entry separator between them, and possibly an options separator with a clause behind
it. A clause holds anything but the statement separator. A slice holds plain
characters, strings and bracket groups; only the groups may hold separators.

* **`Balanced`** — the texts a slice or the inside of a bracket group may be.
* **`Tree`** — a line taken apart into statements, slices and clauses. `Tree.text`
  writes the line again, so every character of it stands in one place of the tree, and
  `Tree.parts` reads the parts off.
-/

namespace Lots

/-- Whether a character has one of the three roles. -/
def Separators.Separates (sep : Separators) (c : Char) : Prop :=
  c = sep.entry ∨ c = sep.options ∨ c = sep.stmt

namespace Line

/-! ## Balanced texts -/

/-- The brackets that belong together: round and square brackets close each other, curly
brackets only themselves. -/
def Closes (a b : Char) : Prop :=
  ((a = '(' ∨ a = '[') ∧ (b = ')' ∨ b = ']')) ∨ (a = '{' ∧ b = '}')

/-- Texts whose strings and brackets are all closed. Outside any group they hold no
separator. -/
inductive Balanced (sep : Separators) : (grouped : Bool) → List Char → Prop where
  | nil {grouped : Bool} : Balanced sep grouped []
  | plain {grouped : Bool} {c : Char} {rest : List Char}
      (hplain : c ∉ reservedChars) (hsep : grouped = true ∨ ¬ sep.Separates c)
      (hrest : Balanced sep grouped rest) :
      Balanced sep grouped (c :: rest)
  | string {grouped : Bool} {body rest : List Char}
      (hbody : '"' ∉ body) (hrest : Balanced sep grouped rest) :
      Balanced sep grouped ('"' :: (body ++ '"' :: rest))
  | group {grouped : Bool} {a b : Char} {body rest : List Char}
      (hclose : Closes a b) (hbody : Balanced sep true body)
      (hrest : Balanced sep grouped rest) :
      Balanced sep grouped (a :: (body ++ b :: rest))

theorem Balanced.append {sep : Separators} {grouped : Bool} {s t : List Char}
    (hs : Balanced sep grouped s) (ht : Balanced sep grouped t) :
    Balanced sep grouped (s ++ t) := by
  induction hs with
  | nil => simpa using ht
  | plain hplain hsep _ ih => exact .plain hplain hsep (ih ht)
  | string hbody _ ih =>
    rw [List.cons_append, List.append_assoc, List.cons_append]
    exact .string hbody (ih ht)
  | group hclose hbody _ _ ih =>
    rw [List.cons_append, List.append_assoc, List.cons_append]
    exact .group hclose hbody (ih ht)

theorem Balanced.char {sep : Separators} {grouped : Bool} {c : Char}
    (hplain : c ∉ reservedChars) (hsep : grouped = true ∨ ¬ sep.Separates c) :
    Balanced sep grouped [c] :=
  .plain hplain hsep .nil

/-! ## Trees -/

/-- The text of an entry as it stands in a line. -/
abbrev Slice (sep : Separators) : Type :=
  { s : List Char // Balanced sep false s }

/-- The text of an options clause as it stands in a line. -/
abbrev Clause (sep : Separators) : Type :=
  { s : List Char // sep.stmt ∉ s }

/-- A statement taken apart. -/
structure StmtTree (sep : Separators) where
  /-- The slices with an entry separator behind them. -/
  earlier : List (Slice sep)
  /-- The slice that the end of the statement or its options separator ends. -/
  last : Slice sep
  clause : Option (Clause sep)

/-- A line taken apart. -/
structure Tree (sep : Separators) where
  /-- The statements with a statement separator behind them. -/
  ended : List (StmtTree sep)
  /-- The statement that the end of the line leaves. -/
  last : StmtTree sep

variable {sep : Separators}

/-- The slices with an entry separator behind each. -/
def slicesText (slices : List (Slice sep)) : List Char :=
  slices.flatMap fun slice => slice.val ++ [sep.entry]

/-- A clause with the options separator in front. -/
def clauseText : Option (Clause sep) → List Char
  | none => []
  | some clause => sep.options :: clause.val

def StmtTree.text (stmt : StmtTree sep) : List Char :=
  slicesText stmt.earlier ++ stmt.last.val ++ clauseText stmt.clause

/-- The text of statements with a statement separator behind each. -/
def stmtsText (stmts : List (StmtTree sep)) : List Char :=
  stmts.flatMap fun stmt => stmt.text ++ [sep.stmt]

def Tree.text (tree : Tree sep) : List Char :=
  stmtsText tree.ended ++ tree.last.text

/-! ## Parts of a tree -/

/-- A slice that an entry separator ends is an entry, even if it is empty. -/
def slicesParts (slices : List (Slice sep)) : List Part :=
  slices.map fun slice => .entry (trim slice.val)

def clauseParts : Option (Clause sep) → List Part
  | none => []
  | some clause => [.options (Text.strip clause.val)]

/-- A slice that an options or a statement separator ends is an entry only if something is
left of it once it is trimmed. -/
def lastSliceParts (slice : Slice sep) : List Part :=
  if trim slice.val = [] then [] else [.entry (trim slice.val)]

/-- The parts of a statement with a statement separator behind it. -/
def StmtTree.endedParts (stmt : StmtTree sep) : List Part :=
  slicesParts stmt.earlier ++ lastSliceParts stmt.last ++ clauseParts stmt.clause ++ [.endStmt]

/-- The parts of the statement at the end of a line. A slice that the line's end ends is
an entry if it has any character. -/
def StmtTree.openParts (stmt : StmtTree sep) : List Part :=
  slicesParts stmt.earlier ++
    match stmt.clause with
    | none => if stmt.last.val = [] then [] else [.entry (trim stmt.last.val)]
    | some _ => lastSliceParts stmt.last ++ clauseParts stmt.clause

theorem sliceEntry_eq (slice : Slice sep) : sliceEntry slice.val = lastSliceParts slice := by
  simp [sliceEntry, lastSliceParts]

def Tree.parts (tree : Tree sep) : List Part :=
  tree.ended.flatMap StmtTree.endedParts ++ tree.last.openParts

end Line

end Lots
