import Lots.Proofs.Options.Meaning
import Lots.Proofs.Sample.Values

/-!
# Lots — the outcome of reading options

A text is stripped, and then it is the name of a preset, or empty, or a clause, or bad syntax; no
two of these have different outcomes, since no name of a preset is a clause and the empty clause
sets nothing.

* **`Means`** — the outcome that is due to a stripped text: `means_parse`, `parse_of_means`.
* **`parse_eq_value`** — where a clause is written its outcome is that of the text.
* **`Notation.clause`** — a clause for every options value within the range (`InRange`), with a
  text of it: `Notation.writes_clause`, `Notation.value_clause`.
* **`parse_exact`** — options are exactly their grammar.
-/

namespace Lots.Options

open Numeral (digitLimit)

/-- The options have an amount that can be asked for. -/
def InRange (options : Options) : Prop :=
  options.amount = .all ∨ ∃ n, options.amount = .count n ∧ n ≤ maxAmount

/-! ## Presets -/

/-- A name stands for these options. -/
inductive Preset : List Char → Options → Prop where
  | shuffle : Preset "shuffle".toList { amount := .all, evaluate := some false }
  | list : Preset "list".toList { amount := .all, evaluate := some false, keepOrder := true }
  | eval : Preset "eval".toList { amount := .all, evaluate := some true, keepOrder := true }

theorem preset?_eq_some_iff {text : List Char} {options : Options} :
    preset? text = some options ↔ Preset text options := by
  constructor
  · intro h
    unfold preset? at h
    split at h
    · next hname =>
      cases h
      exact hname ▸ .shuffle
    split at h
    · next hname =>
      cases h
      exact hname ▸ .list
    split at h
    · next hname =>
      cases h
      exact hname ▸ .eval
    · cases h
  · intro h
    cases h <;> decide

theorem Preset.inRange {text : List Char} {options : Options} (h : Preset text options) :
    options.InRange := by
  cases h <;> exact .inl rfl

/-- The name of a preset is no clause. -/
theorem Preset.not_writes {text : List Char} {options : Options} (h : Preset text options)
    (written : Notation) : ¬ Notation.Writes written text := by
  intro hwrites
  have hclause := Notation.ofText?_of_writes hwrites
  have hnone : Notation.ofText? text = none := by cases h <;> decide
  rw [hnone] at hclause
  cases hclause

/-! ## A clause for every value -/

namespace Notation

theorem flagsBehind_letters (flags : List Flag) : FlagsBehind flags (flags.map Flag.toChar) := by
  induction flags with
  | nil => exact .nil
  | cons flag flags ih => exact .cons (List.forall_mem_nil _) ih

/-- A text of an amount. -/
def token : Amount → AmountText × List Char
  | .all => (.all, "all".toList)
  | .count n => (.digits (Numeral.text n), Numeral.text n)

theorem writes_token (amount : Amount) : (token amount).1.Writes (token amount).2 := by
  cases amount with
  | all => exact .all
  | count n =>
    have hdigits := Numeral.digits_text n
    simp only [token]
    cases htext : Numeral.text n with
    | nil => exact absurd htext Nat.toDigits_ne_nil
    | cons c rest =>
      rw [htext] at hdigits
      rcases Nat.eq_zero_or_pos n with rfl | hpos
      · cases htext
        exact .zero
      · have hhead := Numeral.head?_text hpos
        rw [htext] at hhead
        exact .positive hdigits (fun hc => hhead (congrArg some hc))

theorem amountMeant_token (amount : Amount) : amountMeant (some (token amount).1) = amount := by
  cases amount with
  | all => rfl
  | count n => exact congrArg Amount.count (Numeral.value_text n)

/-- The flags that stand for what options have set. -/
def flagsOf (options : Options) : List Flag :=
  Flag.all.filter fun
    | .literal => options.evaluate == some false
    | .evaluate => options.evaluate == some true
    | .keepOrder => options.keepOrder
    | .push => options.push
    | .repeating => options.repeating

/-- A clause for options, and a text of it. -/
def clause (options : Options) : Notation × List Char :=
  (⟨some (token options.amount).1, flagsOf options⟩,
    (token options.amount).2 ++ (flagsOf options).map Flag.toChar)

theorem writes_clause (options : Options) : Writes (clause options).1 (clause options).2 :=
  .amount (writes_token options.amount) (flagsBehind_letters (flagsOf options))

theorem sets_clause (options : Options) : (clause options).1.Sets options where
  amount := (amountMeant_token options.amount).symm
  repeating := by simp [clause, flagsOf, Flag.mem_all]
  keepOrder := by simp [clause, flagsOf, Flag.mem_all]
  evaluated := by simp [clause, flagsOf, Flag.mem_all]
  literal := by simp [clause, flagsOf, Flag.mem_all]
  push := by simp [clause, flagsOf, Flag.mem_all]

theorem short_clause {options : Options} (h : options.InRange) : (clause options).1.Short := by
  intro digits hdigits
  rcases h with hall | ⟨n, hcount, hmax⟩
  · simp [clause, token, hall] at hdigits
  · have htext : digits = Numeral.text n := by simpa [clause, token, hcount] using hdigits.symm
    rw [htext]
    exact Numeral.length_text_le_of_lt (Nat.lt_of_le_of_lt hmax (by decide))

theorem value_clause {options : Options} (h : options.InRange) :
    (clause options).1.value = .ok options := by
  have hsets := sets_clause options
  apply value_of_gives (short_clause h)
  refine .options ?_ ?_ ?_ hsets
  · rintro digits ⟨hdigits, hexcess⟩
    have hamount : options.amount = .count (Numeral.value digits) := by
      rw [hsets.amount, hdigits]
      rfl
    rcases h with hall | ⟨n, hcount, hmax⟩
    · rw [hall] at hamount
      cases hamount
    · rw [hcount] at hamount
      cases hamount
      omega
  · exact List.Nodup.filter _ (by decide)
  · rintro ⟨hevaluate, hliteral⟩
    have htrue := hsets.evaluated.mpr hevaluate
    rw [hsets.literal.mpr hliteral] at htrue
    cases htrue

theorem inRange_of_value {written : Notation} {options : Options}
    (h : written.value = .ok options) : options.InRange := by
  obtain ⟨amount, hamount, h⟩ := bind_eq_ok_iff.mp h
  have hoptions : options.amount = amount := by
    simp only [throw_bind] at h
    split at h
    · cases h
    split at h
    · cases h
    · cases h
      rfl
  unfold InRange
  rw [hoptions]
  unfold amountValue at hamount
  split at hamount
  · cases hamount
    exact .inr ⟨1, rfl, by decide⟩
  · cases hamount
    exact .inl rfl
  · split at hamount
    · cases hamount
    · next n hread =>
      split at hamount
      · next hle =>
        cases hamount
        exact .inr ⟨n, rfl, hle⟩
      · cases hamount

end Notation

/-! ## Texts -/

theorem AmountText.Writes.unblank {amount : AmountText} {token : List Char}
    (h : amount.Writes token) : token ≠ [] ∧ Text.Unblank token := by
  cases h with
  | all | zero => exact ⟨List.cons_ne_nil _ _, Text.unblank_of_all (by decide)⟩
  | positive hdigits hzero =>
    exact ⟨List.cons_ne_nil _ _, fun c hc => Text.isBlank_of_isDigit (hdigits c hc)⟩

namespace Notation

theorem isBlank_toChar (flag : Flag) : Text.isBlank flag.toChar = false := by
  cases flag <;> decide

theorem FlagsBehind.last {flags : List Flag} {text : List Char} (h : FlagsBehind flags text) :
    ∀ c ∈ text.getLast?, Text.isBlank c = false := by
  induction h with
  | nil => nofun
  | @cons flag flags gap text hgap hrest ih =>
    intro c hc
    rw [List.getLast?_append, List.getLast?_cons] at hc
    cases hlast : text.getLast? with
    | none =>
      have hflag : flag.toChar = c := by simpa [hlast] using hc
      exact hflag ▸ isBlank_toChar flag
    | some d =>
      have hd : d = c := by simpa [hlast] using hc
      exact ih c (hd ▸ hlast)

/-- A clause starts and ends with a token. -/
theorem Writes.stripped {written : Notation} {text : List Char} (h : Writes written text) :
    Text.Stripped text := by
  cases h with
  | empty => exact ⟨nofun, nofun⟩
  | @flag flag flags text hflags =>
    have hbehind : FlagsBehind (flag :: flags) (flag.toChar :: text) :=
      .cons (List.forall_mem_nil _) hflags
    refine ⟨?_, hbehind.last⟩
    rintro c ⟨⟩
    exact isBlank_toChar flag
  | @amount amount flags token text hamount hflags =>
    obtain ⟨hne, hunblank⟩ := hamount.unblank
    constructor
    · intro c hc
      obtain ⟨d, rest, rfl⟩ := List.exists_cons_of_ne_nil hne
      exact hunblank c (List.mem_of_head? hc)
    · intro c hc
      rw [List.getLast?_append] at hc
      cases hlast : text.getLast? with
      | none => exact hunblank c (List.mem_of_getLast? (by simpa [hlast] using hc))
      | some d =>
        have hd : d = c := by simpa [hlast] using hc
        exact hflags.last c (hd ▸ hlast)

/-- In a text that is not too long no amount is. -/
theorem Writes.short {written : Notation} {text : List Char} (h : Writes written text)
    (hlength : text.length ≤ digitLimit) : written.Short := by
  intro digits hdigits
  cases h with
  | empty | flag => cases hdigits
  | @amount amount flags token text hamount hflags =>
    cases hdigits
    have hrun := hamount.digitRun.within.length_le
    rw [List.length_append] at hlength
    omega

end Notation

/-- The outcome that is due to a stripped text. -/
inductive Means (text : List Char) : Except Error Options → Prop where
  | preset {options : Options} (hpreset : Preset text options) : Means text (.ok options)
  | empty (hempty : text = []) : Means text (.ok {})
  | clause {written : Notation} {result : Except Error Options}
      (hwrites : Notation.Writes written text) (hgives : written.Gives result) : Means text result
  | badSyntax (hpreset : ∀ options, ¬ Preset text options) (hne : text ≠ [])
      (hno : ∀ written, ¬ Notation.Writes written text) : Means text (.error (.badSyntax text))

/-- What is written in a text is what its outcome comes from. -/
theorem parse_eq_value {text : List Char} {written : Notation}
    (h : Notation.Writes written (Text.strip text)) : parse text = written.value := by
  have hpreset : preset? (Text.strip text) = none := by
    cases hname : preset? (Text.strip text) with
    | none => rfl
    | some options => exact absurd h ((preset?_eq_some_iff.mp hname).not_writes written)
  simp only [parse, hpreset, Notation.ofText?_of_writes h]
  split
  · next hempty =>
    -- the clause of an empty text has no amount and no flags
    rw [List.isEmpty_iff.mp hempty] at h
    obtain rfl := Notation.Writes.unique h .empty
    rfl
  · rfl

theorem means_parse {text : List Char}
    (hshort : ∀ written, Notation.Writes written (Text.strip text) → written.Short) :
    Means (Text.strip text) (parse text) := by
  cases hclause : Notation.ofText? (Text.strip text) with
  | some written =>
    have hwrites := Notation.writes_of_ofText? (Text.stripped_strip text) hclause
    rw [parse_eq_value hwrites]
    exact .clause hwrites (Notation.gives_value (hshort written hwrites))
  | none =>
    have hno : ∀ written, ¬ Notation.Writes written (Text.strip text) := by
      intro written hwrites
      rw [Notation.ofText?_of_writes hwrites] at hclause
      cases hclause
    simp only [parse, hclause]
    split
    · next options hname => exact .preset (preset?_eq_some_iff.mp hname)
    · next hname =>
      split
      · next hempty => exact .empty (List.isEmpty_iff.mp hempty)
      · next hne =>
        refine .badSyntax ?_ (by simpa using hne) hno
        intro options hpreset
        rw [preset?_eq_some_iff.mpr hpreset] at hname
        cases hname

/-- No other outcome is due. -/
theorem parse_of_means {text : List Char} {result : Except Error Options}
    (hshort : ∀ written, Notation.Writes written (Text.strip text) → written.Short)
    (h : Means (Text.strip text) result) : parse text = result := by
  cases h with
  | preset hpreset => simp only [parse, preset?_eq_some_iff.mpr hpreset]
  | empty hempty =>
    rw [parse, hempty]
    rfl
  | clause hwrites hgives =>
    rw [parse_eq_value hwrites, Notation.value_of_gives (hshort _ hwrites) hgives]
  | badSyntax hpreset hne hno =>
    have hname : preset? (Text.strip text) = none := by
      apply Option.eq_none_iff_forall_ne_some.mpr
      intro options hname
      exact hpreset options (preset?_eq_some_iff.mp hname)
    have hclause : Notation.ofText? (Text.strip text) = none := by
      apply Option.eq_none_iff_forall_ne_some.mpr
      intro written hclause
      exact hno written (Notation.writes_of_ofText? (Text.stripped_strip text) hclause)
    simp [parse, hname, hclause, hne]

/-- What is read has an amount that can be asked for. -/
theorem inRange_of_parse {text : List Char} {options : Options} (h : parse text = .ok options) :
    options.InRange := by
  simp only [parse] at h
  split at h
  · next name hname =>
    cases h
    exact (preset?_eq_some_iff.mp hname).inRange
  · split at h
    · cases h
      exact .inr ⟨1, rfl, by decide⟩
    · split at h
      · exact Notation.inRange_of_value h
      · cases h

/-- All such options are read from some text. -/
theorem exists_parse {options : Options} (h : options.InRange) :
    ∃ text, parse text = .ok options := by
  have hwrites := Notation.writes_clause options
  have hstrip := Text.strip_eq_self_iff.mpr hwrites.stripped
  refine ⟨(Notation.clause options).2, ?_⟩
  rw [parse_eq_value (hstrip.symm ▸ hwrites), Notation.value_clause h]

/-- **Options are exactly their grammar.** A text with an amount that is not too long to be read
has the outcome that is due to it when it is stripped, and no other. Clauses with the same amount
and as many flags of each kind have the same outcome, whatever the order of the flags and the
gaps between them. And options are read from some text exactly if their amount is in its range. -/
theorem parse_exact :
    (∀ text, (∀ written, Notation.Writes written (Text.strip text) → written.Short) →
      ∀ result, parse text = result ↔ Means (Text.strip text) result) ∧
    (∀ s t written other, Notation.Writes written (Text.strip s) →
      Notation.Writes other (Text.strip t) → written.amount = other.amount →
      written.flags.Perm other.flags → parse s = parse t) ∧
    (∀ options : Options, options.InRange ↔ ∃ text, parse text = .ok options) := by
  refine ⟨?_, ?_, ?_⟩
  · intro text hshort result
    exact ⟨fun h => h ▸ means_parse hshort, parse_of_means hshort⟩
  · intro s t written other hwritten hother hamount hflags
    rw [parse_eq_value hwritten, parse_eq_value hother, Notation.value_congr hamount hflags]
  · intro options
    exact ⟨exists_parse, fun ⟨text, h⟩ => inRange_of_parse h⟩

/-- Neither a tab between flags nor their order matters, and what they set is read. -/
theorem parse_exact_three_again :
    Means "3r\to".toList (.ok { amount := .count 3, repeating := true, keepOrder := true }) ∧
      parse "3ro".toList = parse " 3o r".toList ∧
      ∃ text, parse text = .ok { amount := .count 0, evaluate := some true } := by
  obtain ⟨houtcome, hsame, hall⟩ := parse_exact
  refine ⟨?_, ?_, ?_⟩
  · have hshort : ∀ written, Notation.Writes written (Text.strip "3r\to".toList) →
        written.Short := fun written h => h.short (by decide)
    exact (houtcome "3r\to".toList hshort _).mp (by decide)
  · refine hsame "3ro".toList " 3o r".toList ⟨some (.digits ['3']), [.repeating, .keepOrder]⟩
      ⟨some (.digits ['3']), [.keepOrder, .repeating]⟩ ?_ ?_ rfl (.swap _ _ _)
    · exact Notation.writes_of_ofText? (Text.stripped_strip _) (by decide)
    · exact Notation.writes_of_ofText? (Text.stripped_strip _) (by decide)
  · exact (hall _).mp (.inr ⟨0, rfl, by decide⟩)

end Lots.Options
