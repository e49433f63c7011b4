/-!
# Lots — lines of a text

`linesBy isBreak` cuts a text at its line breaks; a carriage return followed by a
line feed is one break, and a break at the very end opens no further line.
Programs and standard input break lines at different characters.
-/

namespace Lots.Text

/-- The lines of a text, without their breaks. -/
def linesBy (isBreak : Char → Bool) : List Char → List (List Char)
  | [] => []
  | '\r' :: '\n' :: rest => [] :: linesBy isBreak rest
  | c :: rest =>
    if isBreak c then
      [] :: linesBy isBreak rest
    else
      match linesBy isBreak rest with
      | [] => [[c]]
      | line :: more => (c :: line) :: more

/-- Where a program's lines end: line feed, carriage return, vertical tab, form
feed, the file, group and record separators, the next-line control, and the
Unicode line and paragraph separators. -/
def isProgramBreak (c : Char) : Bool :=
  let n := c.toNat
  (0x0A ≤ n && n ≤ 0x0D) || (0x1C ≤ n && n ≤ 0x1E) || n == 0x85 || n == 0x2028 || n == 0x2029

/-- Where the lines of standard input end. -/
def isInputBreak (c : Char) : Bool :=
  c == '\n' || c == '\r'

def programLines (text : List Char) : List (List Char) :=
  linesBy isProgramBreak text

def inputLines (text : List Char) : List (List Char) :=
  linesBy isInputBreak text

/-- No line holds a break. -/
theorem not_isBreak_of_mem_linesBy {isBreak : Char → Bool}
    {s line : List Char} {c : Char} (hl : line ∈ linesBy isBreak s) (hc : c ∈ line) :
    isBreak c = false := by
  fun_induction linesBy isBreak s generalizing line with
  | case1 => simp at hl
  | case2 rest ih =>
    rcases List.mem_cons.mp hl with rfl | h
    · simp at hc
    · exact ih h hc
  | case3 a rest _ ha ih =>
    rcases List.mem_cons.mp hl with rfl | h
    · simp at hc
    · exact ih h hc
  | case4 a rest _ ha hrest ih => simp_all
  | case5 a rest _ ha first more hrest ih =>
    rcases List.mem_cons.mp hl with rfl | h
    · rcases List.mem_cons.mp hc with rfl | h'
      · simpa using ha
      · exact ih (by simp [hrest]) h'
    · exact ih (by simp [hrest, h]) hc

/-- Lines are pieces of the text, and the first one is at its start. -/
theorem linesBy_pieces (isBreak : Char → Bool) (s : List Char) :
    (∀ line ∈ (linesBy isBreak s).head?, line <+: s) ∧ ∀ line ∈ linesBy isBreak s, line <:+: s := by
  have hlater : ∀ {line rest : List Char} (before : List Char), line <:+: rest →
      line <:+: before ++ rest :=
    fun before h => h.trans (List.suffix_append before _).isInfix
  fun_induction linesBy isBreak s with
  | case1 => exact ⟨nofun, nofun⟩
  | case2 rest ih =>
    refine ⟨by rintro line ⟨⟩; exact List.nil_prefix, ?_⟩
    intro line hline
    rcases List.mem_cons.mp hline with rfl | hline
    · exact List.nil_infix
    · exact hlater ['\r', '\n'] (ih.2 line hline)
  | case3 a rest _ ha ih =>
    refine ⟨by rintro line ⟨⟩; exact List.nil_prefix, ?_⟩
    intro line hline
    rcases List.mem_cons.mp hline with rfl | hline
    · exact List.nil_infix
    · exact hlater [a] (ih.2 line hline)
  | case4 a rest _ ha hrest ih =>
    have hfirst : [a] <+: a :: rest := ⟨rest, rfl⟩
    refine ⟨by rintro line ⟨⟩; exact hfirst, ?_⟩
    intro line hline
    obtain rfl := List.mem_singleton.mp hline
    exact hfirst.isInfix
  | case5 a rest _ ha first more hrest ih =>
    rw [hrest] at ih
    have hfirst : a :: first <+: a :: rest := List.cons_prefix_cons.mpr ⟨rfl, ih.1 first rfl⟩
    refine ⟨by rintro line ⟨⟩; exact hfirst, ?_⟩
    intro line hline
    rcases List.mem_cons.mp hline with rfl | hline
    · exact hfirst.isInfix
    · exact hlater [a] (ih.2 line (List.mem_cons_of_mem first hline))

/-- The characters of lines are those of the text. -/
theorem mem_of_mem_linesBy {isBreak : Char → Bool} {s line : List Char} {c : Char}
    (hl : line ∈ linesBy isBreak s) (hc : c ∈ line) : c ∈ s :=
  ((linesBy_pieces isBreak s).2 line hl).subset hc

theorem linesBy_eq_nil {isBreak : Char → Bool} {s : List Char} (h : linesBy isBreak s = []) :
    s = [] := by
  unfold linesBy at h
  split at h
  · rfl
  · cases h
  · split at h
    · cases h
    · split at h <;> cases h

/-- A break that is not the first half of one ends a line. -/
theorem linesBy_break {isBreak : Char → Bool} {c : Char} {rest : List Char}
    (hpair : ∀ more, c = '\r' → rest ≠ '\n' :: more) (h : isBreak c = true) :
    linesBy isBreak (c :: rest) = [] :: linesBy isBreak rest := by
  rw [linesBy.eq_3 isBreak c rest hpair, if_pos h]

/-- Any other character belongs to the first line of what follows. -/
theorem linesBy_cons {isBreak : Char → Bool} (hreturn : isBreak '\r' = true) {c : Char}
    {rest : List Char} (h : isBreak c = false) :
    linesBy isBreak (c :: rest) =
      (c :: (linesBy isBreak rest).headD []) :: (linesBy isBreak rest).tail := by
  have hpair : ∀ more, c = '\r' → rest ≠ '\n' :: more := by
    rintro more rfl
    rw [hreturn] at h
    cases h
  rw [linesBy.eq_3 isBreak c rest hpair, h]
  cases linesBy isBreak rest <;> rfl

/-- **Lines glue at a line feed.** Between the lines of two texts there is an empty one if the
first text is empty or ends in a break that the line feed does not belong to. -/
theorem linesBy_append_newline {isBreak : Char → Bool} (hfeed : isBreak '\n' = true)
    (hreturn : isBreak '\r' = true) (s t : List Char) :
    ∃ blank, (blank = [] ∨ blank = [[]]) ∧
      linesBy isBreak (s ++ '\n' :: t) = linesBy isBreak s ++ blank ++ linesBy isBreak t := by
  have hnewline : linesBy isBreak ('\n' :: t) = [] :: linesBy isBreak t :=
    linesBy_break nofun hfeed
  fun_induction linesBy isBreak s with
  | case1 => exact ⟨[[]], .inr rfl, hnewline⟩
  | case2 rest ih =>
    obtain ⟨blank, hblank, hlines⟩ := ih
    exact ⟨blank, hblank, by simp [linesBy, hlines]⟩
  | case3 a rest hpair ha ih =>
    by_cases hjoin : a = '\r' ∧ rest = []
    · -- the line feed completes the break
      obtain ⟨rfl, rfl⟩ := hjoin
      exact ⟨[], .inl rfl, by simp [linesBy]⟩
    · obtain ⟨blank, hblank, hlines⟩ := ih
      have hpair' : ∀ more, a = '\r' → rest ++ '\n' :: t ≠ '\n' :: more := by
        intro more hcr heq
        cases rest with
        | nil => exact hjoin ⟨hcr, rfl⟩
        | cons b rest =>
          obtain ⟨rfl, -⟩ := List.cons.inj heq
          exact hpair rest hcr rfl
      refine ⟨blank, hblank, ?_⟩
      rw [List.cons_append, linesBy_break hpair' ha, hlines]
      rfl
  | case4 a rest hpair ha hrest ih =>
    obtain rfl := linesBy_eq_nil hrest
    refine ⟨[], .inl rfl, ?_⟩
    rw [List.singleton_append, linesBy_cons hreturn (by simpa using ha), hnewline]
    rfl
  | case5 a rest hpair ha first more hrest ih =>
    obtain ⟨blank, hblank, hlines⟩ := ih
    refine ⟨blank, hblank, ?_⟩
    rw [List.cons_append, linesBy_cons hreturn (by simpa using ha), hlines, hrest]
    rfl

end Lots.Text
