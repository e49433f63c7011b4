import Lots.Proofs.Line.Reading

/-!
# Lots — a line has at most one tree

Two trees of one text agree from left to right: their first slices end at the same place,
then the same separator follows, and so on. That slices end at the same place is the one
fact about balanced texts: none of them goes on behind a separator that stands outside
its strings and groups (`not_balanced_append`). The cursor shows it. It moves over a
balanced text and keeps all of it, but a separator makes it start anew.
-/

namespace Lots.Line

variable {sep : Separators}

open Cursor

/-! ## Slices end at the first separator -/

/-- A reading adds at most its characters to the text being read. -/
theorem length_taken_le {k last : Cursor} {s : List Char} {parts : List Part}
    (h : k.Reads sep s parts last) : last.taken.length ≤ k.taken.length + s.length := by
  induction s generalizing k parts with
  | nil =>
    obtain ⟨-, rfl⟩ := h.unique .nil
    simp
  | cons c rest ih =>
    obtain ⟨first, mid, more, hstep, hrest, -⟩ := h.uncons
    have hmid : mid.taken.length ≤ k.taken.length + 1 := by
      rcases step_cases hstep with ⟨-, mode, rfl⟩ | ⟨-, mode, rfl⟩ | ⟨rfl, -⟩
      · exact Nat.le_refl _
      · exact Nat.zero_le _
      · exact Nat.zero_le _
    have hlast := ih hrest
    simp only [List.length_cons]
    omega

/-- A separator outside strings and groups ends a balanced text. -/
theorem not_balanced_append {s t : List Char} {x : Char} (hs : Balanced sep false s)
    (hx : sep.Separates x) : ¬ Balanced sep false (s ++ x :: t) := by
  intro hall
  have hreads : (start 0).Reads sep (s ++ x :: t) [] ((start 0).past (s ++ x :: t)) :=
    reads_balanced hall _ [] rfl nofun
  have hfirst : (start 0).Reads sep s [] ((start 0).past s) := reads_balanced hs _ [] rfl nofun
  obtain ⟨more, hrest⟩ := hreads.rest hfirst
  obtain ⟨first, mid, parts, hstep, hlast, -⟩ := hrest.uncons
  -- the separator drops what was taken before it
  have hmid : mid.taken = [] := by
    rcases hx with rfl | rfl | rfl
    · rw [step_entry rfl] at hstep
      cases hstep
      rfl
    · rw [step_options rfl] at hstep
      cases hstep
      rfl
    · rw [step_stmt rfl] at hstep
      cases hstep
      rfl
  have hle := length_taken_le hlast
  simp only [hmid, past, start, List.append_nil, List.length_reverse, List.length_append,
    List.length_cons, List.length_nil] at hle
  omega

/-- Texts that are empty or start with such a character. -/
def StartsWith (p : Char → Prop) (s : List Char) : Prop :=
  ∀ c ∈ s.head?, p c

theorem StartsWith.nil {p : Char → Prop} : StartsWith p [] := nofun

theorem StartsWith.cons {p : Char → Prop} {c : Char} {s : List Char} (h : p c) :
    StartsWith p (c :: s) := by
  intro c' hc'
  cases hc'
  exact h

/-- Of two slices with separators behind them, the first does not go on in the second. -/
theorem eq_nil_of_balanced {s d r : List Char} (hs : Balanced sep false s)
    (hsd : Balanced sep false (s ++ d)) (hr : StartsWith sep.Separates (d ++ r)) : d = [] := by
  cases d with
  | nil => rfl
  | cons x t => exact absurd hsd (not_balanced_append hs (hr x rfl))

/-- Slices end where the first separator behind them stands. -/
theorem slice_unique {a b : Slice sep} {r r' : List Char}
    (hr : StartsWith sep.Separates r) (hr' : StartsWith sep.Separates r')
    (h : a.val ++ r = b.val ++ r') : a = b ∧ r = r' := by
  obtain ⟨s, hs⟩ := a
  obtain ⟨t, ht⟩ := b
  -- one slice is the beginning of the other, and what the other has on top is nothing
  rcases List.append_eq_append_iff.mp h with ⟨d, rfl, rfl⟩ | ⟨d, rfl, rfl⟩
  · obtain rfl := eq_nil_of_balanced hs ht hr
    simp
  · obtain rfl := eq_nil_of_balanced ht hs hr'
    simp

/-- A clause ends where the first statement separator behind it stands. -/
theorem clause_unique {a b : Clause sep} {r r' : List Char}
    (hr : StartsWith (· = sep.stmt) r) (hr' : StartsWith (· = sep.stmt) r')
    (h : a.val ++ r = b.val ++ r') : a = b ∧ r = r' := by
  obtain ⟨s, hs⟩ := a
  obtain ⟨t, ht⟩ := b
  rcases List.append_eq_append_iff.mp h with ⟨d, rfl, rfl⟩ | ⟨d, rfl, rfl⟩
  · cases d with
    | nil => simp
    | cons x d =>
      have hx : x = sep.stmt := hr x rfl
      simp [hx] at ht
  · cases d with
    | nil => simp
    | cons x d =>
      have hx : x = sep.stmt := hr' x rfl
      simp [hx] at hs

/-! ## Statements and lines -/

/-- The separators that may stand behind the last slice of a statement. -/
def EndsSlices (sep : Separators) (c : Char) : Prop :=
  c = sep.options ∨ c = sep.stmt

theorem slices_unique {as bs : List (Slice sep)} {a b : Slice sep} {r r' : List Char}
    (hr : StartsWith (EndsSlices sep) r) (hr' : StartsWith (EndsSlices sep) r')
    (h : slicesText as ++ (a.val ++ r) = slicesText bs ++ (b.val ++ r')) :
    as = bs ∧ a = b ∧ r = r' := by
  have hweak : ∀ {s}, StartsWith (EndsSlices sep) s → StartsWith sep.Separates s :=
    fun hs c hc => .inr (hs c hc)
  have hentry : ∀ s, ¬ StartsWith (EndsSlices sep) (sep.entry :: s) := by
    intro s hs
    rcases hs sep.entry rfl with h | h
    · exact sep.entry_ne_options h
    · exact sep.stmt_ne_entry h.symm
  have hentry' : ∀ s, StartsWith sep.Separates (sep.entry :: s) := fun s => .cons (.inl rfl)
  induction as generalizing bs with
  | nil =>
    cases bs with
    | nil =>
      obtain ⟨rfl, rfl⟩ := slice_unique (hweak hr) (hweak hr') h
      exact ⟨rfl, rfl, rfl⟩
    | cons first rest =>
      simp only [slicesText, List.flatMap_nil, List.nil_append, List.flatMap_cons,
        List.append_assoc, List.singleton_append] at h
      -- the rest would start with an entry separator, which ends no statement
      obtain ⟨-, rfl⟩ := slice_unique (hweak hr) (hentry' _) h
      exact absurd hr (hentry _)
  | cons first rest ih =>
    cases bs with
    | nil =>
      simp only [slicesText, List.flatMap_nil, List.nil_append, List.flatMap_cons,
        List.append_assoc, List.singleton_append] at h
      obtain ⟨-, rfl⟩ := slice_unique (hentry' _) (hweak hr') h
      exact absurd hr' (hentry _)
    | cons first' rest' =>
      simp only [slicesText, List.flatMap_cons, List.append_assoc, List.singleton_append] at h
      obtain ⟨rfl, htail⟩ := slice_unique (hentry' _) (hentry' _) h
      obtain ⟨rfl, rfl, rfl⟩ := ih (List.cons.inj htail).2
      exact ⟨rfl, rfl, rfl⟩

theorem stmt_unique {t t' : StmtTree sep} {r r' : List Char}
    (hr : StartsWith (· = sep.stmt) r) (hr' : StartsWith (· = sep.stmt) r')
    (h : t.text ++ r = t'.text ++ r') : t = t' ∧ r = r' := by
  obtain ⟨earlier, last, clause⟩ := t
  obtain ⟨earlier', last', clause'⟩ := t'
  simp only [StmtTree.text, List.append_assoc] at h
  have hends : ∀ (clause : Option (Clause sep)) {s : List Char},
      StartsWith (· = sep.stmt) s → StartsWith (EndsSlices sep) (clauseText clause ++ s) := by
    intro clause s hs
    cases clause with
    | none => exact fun c hc => .inr (hs c hc)
    | some clause => exact .cons (.inl rfl)
  obtain ⟨rfl, rfl, hclause⟩ := slices_unique (hends clause hr) (hends clause' hr') h
  have hoptions : ∀ s, ¬ StartsWith (· = sep.stmt) (sep.options :: s) :=
    fun s hs => sep.stmt_ne_options (hs sep.options rfl).symm
  cases clause with
  | none =>
    cases clause' with
    | none => exact ⟨rfl, hclause⟩
    | some clause' =>
      simp only [clauseText, List.nil_append] at hclause
      exact absurd (hclause ▸ hr) (hoptions _)
  | some clause =>
    cases clause' with
    | none =>
      simp only [clauseText, List.nil_append] at hclause
      exact absurd (hclause ▸ hr') (hoptions _)
    | some clause' =>
      obtain ⟨rfl, rfl⟩ := clause_unique hr hr' (List.cons.inj hclause).2
      exact ⟨rfl, rfl⟩

/-- **The grammar is unambiguous.** -/
theorem Tree.text_injective {t t' : Tree sep} (h : t.text = t'.text) : t = t' := by
  obtain ⟨ended, last⟩ := t
  obtain ⟨ended', last'⟩ := t'
  have hstmt : ∀ s, StartsWith (· = sep.stmt) (sep.stmt :: s) := fun s => .cons rfl
  induction ended generalizing ended' with
  | nil =>
    cases ended' with
    | nil =>
      have h' : last.text ++ [] = last'.text ++ [] := by simpa [Tree.text, stmtsText] using h
      obtain ⟨rfl, -⟩ := stmt_unique .nil .nil h'
      rfl
    | cons first rest =>
      -- only one of the two lines goes on behind the first statement
      have h' : last.text ++ [] = first.text ++ (sep.stmt :: (stmtsText rest ++ last'.text)) := by
        simpa [Tree.text, stmtsText] using h
      exact absurd (stmt_unique .nil (hstmt _) h').2 nofun
  | cons first rest ih =>
    cases ended' with
    | nil =>
      have h' : first.text ++ (sep.stmt :: (stmtsText rest ++ last.text)) = last'.text ++ [] := by
        simpa [Tree.text, stmtsText] using h
      exact absurd (stmt_unique (hstmt _) .nil h').2 nofun
    | cons first' rest' =>
      have h' : first.text ++ (sep.stmt :: (stmtsText rest ++ last.text)) =
          first'.text ++ (sep.stmt :: (stmtsText rest' ++ last'.text)) := by
        simpa [Tree.text, stmtsText] using h
      obtain ⟨rfl, htail⟩ := stmt_unique (hstmt _) (hstmt _) h'
      have hrest := ih rest' (List.cons.inj htail).2
      cases hrest
      rfl

end Lots.Line
