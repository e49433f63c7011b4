import Lots.Proofs.Expr.Classification
import Lots.Proofs.Expr.Printing

/-!
# Lots — what dice notation means

The roll that dice notation means, said without the code that judges it, and the faults of the
notation from left to right. Each part of the notation is judged by itself, so the whole of it is
judged by the first fault among them.

* **`Notation.meant`** — the roll, from the numbers that are written; its modifier is the exact
  sum of the signed terms.
* **`Notation.faults`** — what is wrong, in the order of the parts; nothing is exactly if the roll
  is proper (`Notation.faults_eq_nil_iff`).
* **`judge`**, **`judge_bind`** — a value with its faults, and one after the other. Every part is
  judged so: `Notation.countValue_eq`, `Notation.modifierValue_eq`, `Notation.value_eq`.
* **`parse?_meaning`** — dice notation is read as what it means, or refused for its first fault.
  A sum of modifiers that has too many digits is refused, but not as one that is out of range
  (`parse?_overlong_sum`); this is the only difference to what is due (`judge_eq_due_iff`).
-/

namespace Lots

/-- Zeros in front of digits do not change their value. -/
theorem Numeral.value_zeros (zeros : Nat) (digits : List Char) :
    value (List.replicate zeros '0' ++ digits) = value digits := by
  unfold value
  induction zeros with
  | zero => rfl
  | succ zeros ih =>
    rw [List.replicate_succ, List.cons_append, Nat.ofDigitChars_cons]
    exact ih

namespace Roll

open Numeral (Sign digitLimit)

/-! ## Judging by faults -/

/-- The error that a fault is refused with. A modifier with too many digits to be shown in it is
refused for these. -/
def shown : Error → Error
  | .modifier sum =>
    if (Numeral.text sum.natAbs).length ≤ digitLimit then .modifier sum else .tooLong .writing
  | fault => fault

/-- A value, unless there are faults; then the first one is shown. -/
def judge {α : Type} (faults : List Error) (meant : α) : Except Error α :=
  match faults with
  | [] => .ok meant
  | fault :: _ => .error (shown fault)

/-- The outcome with the first fault as it is. -/
def due {α : Type} (faults : List Error) (meant : α) : Except Error α :=
  match faults with
  | [] => .ok meant
  | fault :: _ => .error fault

/-- A sum of modifiers that is the first fault does not have too many digits. -/
def FirstShown (faults : List Error) : Prop :=
  ∀ sum, faults.head? = some (.modifier sum) → (Numeral.text sum.natAbs).length ≤ digitLimit

theorem judge_eq_due_iff {α : Type} {faults : List Error} {meant : α} :
    judge faults meant = due faults meant ↔ FirstShown faults := by
  cases faults with
  | nil => exact iff_of_true rfl nofun
  | cons fault rest =>
    cases fault with
    | tooLarge | zero | tooLong => exact iff_of_true rfl nofun
    | modifier sum =>
      by_cases hshown : (Numeral.text sum.natAbs).length ≤ digitLimit
      · refine iff_of_true ?_ ?_
        · rw [judge, due, shown, if_pos hshown]
        · rintro _ ⟨⟩
          exact hshown
      · refine iff_of_false ?_ fun h => hshown (h sum rfl)
        rw [judge, due, shown, if_neg hshown]
        nofun

theorem judge_bind {α β : Type} {faults more : List Error} {meant : α} {whole : β}
    {next : α → Except Error β} (h : next meant = judge more whole) :
    judge faults meant >>= next = judge (faults ++ more) whole := by
  cases faults with
  | nil => exact h
  | cons fault rest => rfl

theorem judge_map {α β : Type} (faults : List Error) (meant : α) (f : α → β) :
    (judge faults meant).map f = judge faults (f meant) := by
  cases faults <;> rfl

namespace Notation

/-! ## Meaning -/

/-- The number meant where one may be left out. -/
def numberMeant (digits : List Char) : Nat :=
  if digits.isEmpty then 1 else Numeral.value digits

def sidesMeant : Option (List Char) → Nat
  | none => 100
  | some digits => Numeral.value digits

def choiceMeant : (Action × Side) × List Char → Choice
  | ((action, side), digits) => { amount := numberMeant digits, action, side }

/-- The sum of the signed terms. -/
def modifierMeant (modifiers : List (Sign × List Char)) : Int :=
  modifiers.foldr (fun term sum => term.1.apply (Numeral.value term.2) + sum) 0

/-- The roll that is meant. -/
def meant (written : Notation) : Roll where
  amount := numberMeant written.amount
  sides := sidesMeant written.sides
  exploding := written.exploding
  choice := written.choice.map choiceMeant
  modifier := modifierMeant written.modifiers

/-! ## Faults -/

/-- A count that is written is neither zero nor too large. -/
def countFaults (count : Count) (digits : List Char) : List Error :=
  if Numeral.value digits = 0 then [.zero count]
  else if maxCount < Numeral.value digits then [.tooLarge count digits]
  else []

def optionalFaults (count : Count) (digits : List Char) : List Error :=
  if digits.isEmpty then [] else countFaults count digits

def modifierFaults (sum : Int) : List Error :=
  if minModifier ≤ sum ∧ sum ≤ maxModifier then [] else [.modifier sum]

def sidesFaults : Option (List Char) → List Error
  | none => []
  | some digits => countFaults .sides digits

def choiceFaults : Option ((Action × Side) × List Char) → List Error
  | none => []
  | some (_, digits) => optionalFaults .chosen digits

/-- The faults of the parts: number of dice, sides, choice and modifiers. -/
def faults (written : Notation) : List Error :=
  optionalFaults .amount written.amount ++ (sidesFaults written.sides ++
    (choiceFaults written.choice ++ modifierFaults (modifierMeant written.modifiers)))

theorem countFaults_eq_nil_iff {count : Count} {digits : List Char} :
    countFaults count digits = [] ↔
      1 ≤ Numeral.value digits ∧ Numeral.value digits ≤ maxCount := by
  unfold countFaults
  split
  · simp; omega
  · split
    · simp; omega
    · simp; omega

theorem optionalFaults_eq_nil_iff {count : Count} {digits : List Char} :
    optionalFaults count digits = [] ↔ 1 ≤ numberMeant digits ∧ numberMeant digits ≤ maxCount := by
  unfold optionalFaults numberMeant
  split
  · decide
  · exact countFaults_eq_nil_iff

theorem sidesFaults_eq_nil_iff {sides : Option (List Char)} :
    sidesFaults sides = [] ↔ 1 ≤ sidesMeant sides ∧ sidesMeant sides ≤ maxCount := by
  cases sides with
  | none => decide
  | some digits => exact countFaults_eq_nil_iff

theorem choiceFaults_eq_nil_iff {choice : Option ((Action × Side) × List Char)} :
    choiceFaults choice = [] ↔
      ∀ chosen ∈ choice.map choiceMeant, 1 ≤ chosen.amount ∧ chosen.amount ≤ maxCount := by
  cases choice with
  | none => simp [choiceFaults]
  | some chosen => simpa [choiceFaults, choiceMeant] using optionalFaults_eq_nil_iff

theorem modifierFaults_eq_nil_iff {sum : Int} :
    modifierFaults sum = [] ↔ minModifier ≤ sum ∧ sum ≤ maxModifier := by
  unfold modifierFaults
  split
  · next hrange => simp [hrange]
  · next hrange => simp [hrange]

/-- Notation without a fault is that of a proper roll. -/
theorem faults_eq_nil_iff {written : Notation} : written.faults = [] ↔ written.meant.Proper := by
  rw [faults, List.append_eq_nil_iff, List.append_eq_nil_iff, List.append_eq_nil_iff,
    optionalFaults_eq_nil_iff, sidesFaults_eq_nil_iff, choiceFaults_eq_nil_iff,
    modifierFaults_eq_nil_iff]
  constructor
  · intro ⟨amount, sides, choice, modifier⟩
    exact { amount, sides, choice, modifier }
  · intro hproper
    exact ⟨hproper.amount, hproper.sides, hproper.choice, hproper.modifier⟩

/-! ## The parts are judged -/

theorem countValue_eq {count : Count} {digits : List Char} (h : digits.length ≤ digitLimit) :
    countValue count digits = judge (countFaults count digits) (Numeral.value digits) := by
  simp only [countValue, Numeral.read_of_length_le h, countFaults]
  split
  · next hlarge =>
    rw [if_neg (by omega)]
    rfl
  · split
    · rfl
    · rfl

theorem optionalCountValue_eq {count : Count} {digits : List Char}
    (h : digits.length ≤ digitLimit) :
    optionalCountValue count digits =
      judge (optionalFaults count digits) (numberMeant digits) := by
  unfold optionalCountValue optionalFaults numberMeant
  split
  · rfl
  · exact countValue_eq h

theorem sidesValue_eq {sides : Option (List Char)}
    (h : ∀ digits ∈ sides, digits.length ≤ digitLimit) :
    sidesValue sides = judge (sidesFaults sides) (sidesMeant sides) := by
  cases sides with
  | none => rfl
  | some digits => exact countValue_eq (h digits rfl)

theorem choiceValue_eq {choice : Option ((Action × Side) × List Char)}
    (h : ∀ chosen ∈ choice, chosen.2.length ≤ digitLimit) :
    choiceValue choice = judge (choiceFaults choice) (choice.map choiceMeant) := by
  cases choice with
  | none => rfl
  | some chosen =>
    obtain ⟨⟨action, side⟩, digits⟩ := chosen
    rw [choiceValue, optionalCountValue_eq (h _ rfl), judge_map]
    rfl

theorem modifierSum_eq {modifiers : List (Sign × List Char)}
    (h : ∀ modifier ∈ modifiers, modifier.2.length ≤ digitLimit) :
    modifierSum modifiers = .ok (modifierMeant modifiers) := by
  induction modifiers with
  | nil => rfl
  | cons first rest ih =>
    obtain ⟨hfirst, hrest⟩ := List.forall_mem_cons.mp h
    rw [modifierSum, Numeral.readSigned_of_length_le hfirst, ih hrest]
    rfl

theorem modifierValue_eq {modifiers : List (Sign × List Char)}
    (h : ∀ modifier ∈ modifiers, modifier.2.length ≤ digitLimit) :
    modifierValue modifiers =
      judge (modifierFaults (modifierMeant modifiers)) (modifierMeant modifiers) := by
  rw [modifierValue, modifierSum_eq h]
  simp only [bind, Except.bind, modifierFaults]
  split
  · rfl
  · simp only [judge, shown, Numeral.write]
    by_cases hshown : (Numeral.text (modifierMeant modifiers).natAbs).length ≤ digitLimit
    · rw [if_pos hshown, if_pos hshown]
      rfl
    · rw [if_neg hshown, if_neg hshown]
      rfl

/-- Notation with numbers that are read is judged by its faults. -/
theorem value_eq {written : Notation}
    (h : ∀ digits ∈ written.numbers, digits.length ≤ digitLimit) :
    written.value = judge written.faults written.meant := by
  simp only [numbers, List.cons_append, List.forall_mem_cons, List.forall_mem_append,
    List.forall_mem_map, Option.mem_toList] at h
  obtain ⟨hamount, ⟨hsides, hchoice⟩, hmodifiers⟩ := h
  rw [value, optionalCountValue_eq hamount, sidesValue_eq hsides, choiceValue_eq hchoice,
    modifierValue_eq hmodifiers]
  -- each part is judged before the next, so the faults stand in this order
  refine judge_bind (judge_bind (judge_bind ?_))
  exact judge_map _ _ fun modifier => { written.meant with modifier }

end Notation

/-- **Dice notation means what is written.** A text is no roll exactly if it writes no notation.
If all its numbers are read, the notation is read as the roll that it means, unless it has faults,
and then it is refused for the first of them, if this can be shown. It has none exactly if all its
numbers are in their ranges. Zeros in front of a number do not count. -/
theorem parse?_meaning (text : List Char) :
    (parse? text = none ↔ ∀ written, ¬ Notation.Writes written text) ∧
    (∀ written, Notation.Writes written text →
      (∀ digits ∈ written.numbers, digits.length ≤ digitLimit) →
      (parse? text = some (due written.faults written.meant) ↔ FirstShown written.faults) ∧
        parse? text = some (judge written.faults written.meant) ∧
        (written.faults = [] ↔ written.meant.Proper)) ∧
    ∀ zeros digits, Numeral.value (List.replicate zeros '0' ++ digits) = Numeral.value digits := by
  refine ⟨?_, ?_, Numeral.value_zeros⟩
  · rw [parse?, Option.map_eq_none_iff, Option.eq_none_iff_forall_ne_some]
    exact forall_congr' fun written => not_congr Notation.ofText?_eq_some_iff
  · intro written hwrites hshort
    have hjudged : parse? text = some (judge written.faults written.meant) := by
      rw [parse?, Notation.ofText?_of_writes hwrites, Option.map_some, Notation.value_eq hshort]
    refine ⟨?_, hjudged, Notation.faults_eq_nil_iff⟩
    rw [hjudged, Option.some.injEq]
    exact judge_eq_due_iff

/-- The first of three faults is the one that counts, and zeros in front of sides do not. -/
theorem parse?_meaning_of_faults :
    parse? ['0', 'd', '0', 'k', 'l', '0', '0', '+', '5'] = some (.error (.zero .amount)) ∧
      parse? ['d', '0', '6', 'd', 'h', '-', '5', '+', '2'] =
        some (.ok { sides := 6, choice := some ⟨1, .drop, .high⟩, modifier := -3 }) := by
  constructor
  · have hwrites : Notation.Writes
        ⟨['0'], some ['0'], false, some ((.keep, .low), ['0', '0']), [(.plus, ['5'])]⟩
        ['0', 'd', '0', 'k', 'l', '0', '0', '+', '5'] :=
      .intro (by decide) (.number (by decide) (by decide)) (.some .keepLow (by decide))
        (.cons (by decide) (by decide) .nil)
    exact ((parse?_meaning _).2.1 _ hwrites (by decide)).2.1
  · have hwrites : Notation.Writes
        ⟨[], some ['0', '6'], false, some ((.drop, .high), []), [(.minus, ['5']), (.plus, ['2'])]⟩
        ['d', '0', '6', 'd', 'h', '-', '5', '+', '2'] :=
      .intro (by decide) (.number (by decide) (by decide)) (.some .dropHigh (by decide))
        (.cons (by decide) (by decide) (.cons (by decide) (by decide) .nil))
    exact ((parse?_meaning _).2.1 _ hwrites (by decide)).2.1

/-! ## A sum that is not shown -/

theorem Notation.faults_overlong :
    Expr.overlong.faults = [.modifier ((10 ^ digitLimit : Nat) : Int)] := by
  have hshort := Expr.shortIntegers_overlong.roll _ Expr.writes_overlong
  have hsum : modifierMeant Expr.overlong.modifiers = ((10 ^ digitLimit : Nat) : Int) := by
    have hread := Expr.modifierSum_overlong
    rw [modifierSum_eq fun modifier hmem => hshort _ (List.mem_append_right _
      (List.mem_map_of_mem hmem))] at hread
    exact Except.ok.inj hread
  have hbig := Numeral.ten_digits_le_pow
  show [] ++ (sidesFaults (some ['6']) ++ ([] ++ modifierFaults _)) = _
  have hsides : sidesFaults (some ['6']) = [] := by decide
  rw [hsides, hsum, modifierFaults, if_neg]
  · rfl
  · generalize 10 ^ digitLimit = n at hbig
    unfold maxModifier
    omega

/-- Modifiers that are all read, with a sum that is out of range: the only fault of the notation.
It is not refused for this, since the error would have to show a sum with too many digits. -/
theorem parse?_overlong_sum :
    Notation.Writes Expr.overlong Expr.overlongText ∧
      (∀ digits ∈ Expr.overlong.numbers, digits.length ≤ digitLimit) ∧
      Expr.overlong.faults = [.modifier ((10 ^ digitLimit : Nat) : Int)] ∧
      due Expr.overlong.faults Expr.overlong.meant =
        .error (.modifier ((10 ^ digitLimit : Nat) : Int)) ∧
      parse? Expr.overlongText = some (.error (.tooLong .writing)) ∧
      parse? Expr.overlongText ≠ some (due Expr.overlong.faults Expr.overlong.meant) := by
  have hparse : parse? Expr.overlongText = some (.error (.tooLong .writing)) := by
    rw [parse?, Notation.ofText?_of_writes Expr.writes_overlong, Option.map_some,
      Expr.value_overlong]
  have hshort := Expr.shortIntegers_overlong.roll _ Expr.writes_overlong
  have hdue : due Expr.overlong.faults Expr.overlong.meant =
      .error (.modifier ((10 ^ digitLimit : Nat) : Int)) := by
    rw [Notation.faults_overlong, due]
  refine ⟨Expr.writes_overlong, hshort, Notation.faults_overlong, hdue, hparse, ?_⟩
  rw [hparse, hdue]
  intro hsame
  cases hsame

end Roll

end Lots
