import Lots.Text.Blank
import Lots.Text.Quoted

/-!
# Lots — separators

Three characters structure a query line: one ends a statement, one ends an entry,
and one ends the entries of a statement and opens its options. `Separators` holds
three different characters that cannot be confused with quotes, brackets or blank
text. `ofTexts` builds them from texts a user gave and names every fault.
-/

namespace Lots

/-- Quotes and brackets, which never separate. -/
def reservedChars : List Char :=
  ['"', '(', ')', '[', ']', '{', '}']

/-- Whether a character may separate: it is neither reserved nor blank. -/
def canSeparate (c : Char) : Bool :=
  !reservedChars.contains c && !Text.isBlank c

/-- The separators of a query line. -/
structure Separators where
  /-- Ends a statement. -/
  stmt : Char := ';'
  /-- Ends an entry. -/
  entry : Char := ','
  /-- Ends the entries of a statement and opens its options clause. -/
  options : Char := '/'
  canSeparate_stmt : canSeparate stmt = true := by decide
  canSeparate_entry : canSeparate entry = true := by decide
  canSeparate_options : canSeparate options = true := by decide
  stmt_ne_entry : stmt ≠ entry := by decide
  stmt_ne_options : stmt ≠ options := by decide
  entry_ne_options : entry ≠ options := by decide
deriving DecidableEq, Repr

instance : Inhabited Separators := ⟨{}⟩

namespace Separators

inductive Role where
  | stmt
  | entry
  | options
deriving DecidableEq, Repr

/-- Why texts do not make separators. -/
inductive Fault where
  /-- The text for a role is not one character. -/
  | notSingle (role : Role) (text : List Char)
  | notAllowed (role : Role) (c : Char)
  /-- Two roles have the same character. -/
  | notDistinct
deriving DecidableEq, Repr

/-- The role at fault; the three together if they are not distinct. -/
def Fault.role? : Fault → Option Role
  | .notSingle role _ => some role
  | .notAllowed role _ => some role
  | .notDistinct => none

def Fault.message : Fault → String
  | .notSingle _ text =>
    "separator must be a single character, got " ++ String.ofList (Text.quoted text)
  | .notAllowed _ c =>
    String.ofList (Text.quoted [c]) ++ " can't be used as a separator"
  | .notDistinct => "separators must be different characters"

/-- The separator that a text gives to a role. -/
def single (role : Role) : List Char → Except Fault { c : Char // canSeparate c = true }
  | [c] => if h : canSeparate c then .ok ⟨c, h⟩ else .error (.notAllowed role c)
  | text => .error (.notSingle role text)

/-- The fault of a failed result. -/
def faults {α : Type} : Except Fault α → List Fault
  | .ok _ => []
  | .error fault => [fault]

/-- Separators from texts. Each role is judged on its own; that they differ is
only asked of three characters that may each separate. -/
def ofTexts (stmt entry options : List Char) : Except (List Fault) Separators :=
  match single .stmt stmt, single .entry entry, single .options options with
  | .ok s, .ok e, .ok o =>
    if h : s.val ≠ e.val ∧ s.val ≠ o.val ∧ e.val ≠ o.val then
      .ok {
        stmt := s.val, entry := e.val, options := o.val
        canSeparate_stmt := s.property
        canSeparate_entry := e.property
        canSeparate_options := o.property
        stmt_ne_entry := h.1
        stmt_ne_options := h.2.1
        entry_ne_options := h.2.2 }
    else .error [.notDistinct]
  | s, e, o => .error (faults s ++ faults e ++ faults o)

theorem single_eq_ok_iff {role : Role} {text : List Char}
    {c : { c : Char // canSeparate c = true }} : single role text = .ok c ↔ text = [c.val] := by
  unfold single
  split
  · next d =>
    split
    · next h => simp [Subtype.ext_iff]
    · next h =>
      have hne : d ≠ c.val := fun hd => h (hd ▸ c.property)
      simpa using hne
  · next htext =>
    have hne : text ≠ [c.val] := htext c.val
    simpa using hne

/-- Texts make separators exactly if each is the one character of its role. -/
theorem ofTexts_eq_ok_iff {stmt entry options : List Char} {sep : Separators} :
    ofTexts stmt entry options = .ok sep ↔
      stmt = [sep.stmt] ∧ entry = [sep.entry] ∧ options = [sep.options] := by
  constructor
  · intro h
    unfold ofTexts at h
    split at h
    · next s e o hs he ho =>
      split at h
      · cases h
        exact ⟨single_eq_ok_iff.mp hs, single_eq_ok_iff.mp he, single_eq_ok_iff.mp ho⟩
      · cases h
    · cases h
  · rintro ⟨rfl, rfl, rfl⟩
    simp [ofTexts, single, sep.canSeparate_stmt, sep.canSeparate_entry, sep.canSeparate_options,
      sep.stmt_ne_entry, sep.stmt_ne_options, sep.entry_ne_options]

/-- A request to replace some of the separators. -/
structure Change where
  stmt : Option (List Char) := none
  entry : Option (List Char) := none
  options : Option (List Char) := none
deriving DecidableEq, Repr

/-- Separators after a request; a role that it does not name keeps its character. -/
def replace (sep : Separators) (change : Change) : Except (List Fault) Separators :=
  ofTexts (change.stmt.getD [sep.stmt]) (change.entry.getD [sep.entry])
    (change.options.getD [sep.options])

/-- These are the old separators, but for the roles that a request names: they have the
characters of the request. -/
def Merges (sep : Separators) (change : Change) (new : Separators) : Prop :=
  change.stmt.getD [sep.stmt] = [new.stmt] ∧ change.entry.getD [sep.entry] = [new.entry] ∧
    change.options.getD [sep.options] = [new.options]

theorem replace_eq_ok_iff {sep new : Separators} {change : Change} :
    sep.replace change = .ok new ↔ sep.Merges change new :=
  ofTexts_eq_ok_iff

/-- Replacing nothing changes nothing. -/
theorem replace_nothing (sep : Separators) : sep.replace {} = .ok sep :=
  replace_eq_ok_iff.mpr ⟨rfl, rfl, rfl⟩

end Separators

end Lots
