import Lots.Proofs.Selection.Taping

/-!
# Lots — what is asked for

Elements are drawn as long as a source answers. What it is asked for next is told by the
numbers drawn so far: a pool shrinks with each of them, and a place that was drawn before does
not count. So elements are drawn, whatever the source, exactly where each request that is
really made has an answer in its range.

* **`Source.Answers`** — a source answers requests for numbers below bounds, one after another
  until there is no next bound, and is left in some state.
* **`drawOut_iff_answers`**, **`drawAgain_iff_answers`**, **`drawPlaces_iff_answers`** — each
  loop ends with a result iff its requests are answered. The induction is on the loop, with any
  numbers drawn before.
* **`nextBound`**, **`select_iff_answers`** — the requests of a pick, and the same for it.
-/

namespace Lots

/-- The requests for numbers below bounds that are made after some numbers are drawn, until
there is no next bound: each of them is answered by a number below its bound. -/
inductive Source.Answers {σ : Type} [Source σ] (next : List Nat → Option Nat) :
    List Nat → σ → σ → Prop where
  | done {drawn : List Nat} {s : σ} (hnext : next drawn = none) : Answers next drawn s s
  | draw {drawn : List Nat} {n j : Nat} {s t s' : σ} (hnext : next drawn = some n)
      (hdraw : below n s = some (j, t)) (hj : j < n) (hrest : Answers next (drawn ++ [j]) t s') :
      Answers next drawn s s'

namespace Source

variable {σ : Type} [Source σ] {next : List Nat → Option Nat} {drawn : List Nat} {n j : Nat}
  {s s' t : σ}

theorem answers_of_none (hnext : next drawn = none) : Answers next drawn s s' ↔ s = s' := by
  constructor
  · intro h
    cases h with
    | done _ => rfl
    | draw hsome _ _ _ => simp [hnext] at hsome
  · rintro rfl
    exact .done hnext

/-- One request is answered, and so are those after it. -/
theorem answers_of_some (hnext : next drawn = some n) :
    Answers next drawn s s' ↔
      ∃ j t, below n s = some (j, t) ∧ j < n ∧ Answers next (drawn ++ [j]) t s' := by
  constructor
  · intro h
    cases h with
    | done hnone => simp [hnext] at hnone
    | draw hsome hdraw hj hrest =>
      obtain rfl := Option.some.inj (hnext.symm.trans hsome)
      exact ⟨_, _, hdraw, hj, hrest⟩
  · rintro ⟨j, t, hdraw, hj, hrest⟩
    exact .draw hnext hdraw hj hrest

theorem answers_of_draw (hnext : next drawn = some n) (hdraw : below n s = some (j, t))
    (hj : j < n) : Answers next drawn s s' ↔ Answers next (drawn ++ [j]) t s' := by
  rw [answers_of_some hnext]
  simp [hdraw, hj]

end Source

namespace Selection

open Source

variable {σ α : Type} [Source σ] {s s' : σ} {drawn : List Nat}

/-! ## Bounds in a row -/

/-- The bound in a row that comes after the numbers drawn so far. -/
def inRow (row drawn : List Nat) : Option Nat :=
  row[drawn.length]?

section

variable {row rest : List Nat} {n : Nat}

theorem inRow_of_drop_nil (h : row.drop drawn.length = []) : inRow row drawn = none := by
  rw [inRow, ← List.head?_drop, h]
  rfl

theorem inRow_of_drop_cons (h : row.drop drawn.length = n :: rest) :
    inRow row drawn = some n := by
  rw [inRow, ← List.head?_drop, h]
  rfl

theorem drop_of_drop_cons (h : row.drop drawn.length = n :: rest) (j : Nat) :
    row.drop (drawn ++ [j]).length = rest := by
  rw [List.length_append, List.length_singleton, ← List.tail_drop, h]
  rfl

end

variable {row : List Nat}

/-- **Out of a pool** elements are drawn iff a countdown from its size is answered. -/
theorem drawOut_iff_answers {count : Nat} (taken : Array α) {pool : Array α}
    (hrow : row.drop drawn.length = countdown pool.size count) :
    (∃ result, drawOut count taken pool s = some (result, s')) ↔
      Answers (inRow row) drawn s s' := by
  induction count generalizing taken pool drawn s with
  | zero =>
    rw [answers_of_none (inRow_of_drop_nil hrow)]
    simp [drawOut]
  | succ more ih =>
    rw [countdown] at hrow
    -- what is left of the row counts down from the pool that remains
    have hrest : ∀ {j x remaining}, takeOut pool j = some (x, remaining) →
        row.drop (drawn ++ [j]).length = countdown remaining.size more := by
      intro j x remaining hout
      rw [drop_of_drop_cons hrow j, pred_size_of_takeOut hout]
    rw [answers_of_some (inRow_of_drop_cons hrow)]
    constructor
    · rintro ⟨result, h⟩
      obtain ⟨j, x, remaining, t, hbelow, hout, hmore⟩ := exists_of_drawOut_succ h
      have hj : j < pool.size := takeOut_isSome_iff.mp (by rw [hout]; rfl)
      exact ⟨j, t, hbelow, hj, (ih (taken.push x) (hrest hout)).mp ⟨result, hmore⟩⟩
    · rintro ⟨j, t, hbelow, hj, hanswers⟩
      obtain ⟨remaining, hout⟩ := exists_takeOut hj
      obtain ⟨result, hmore⟩ := (ih (taken.push pool[j]) (hrest hout)).mpr hanswers
      refine ⟨result, ?_⟩
      rw [drawOut]
      simp only [hbelow, hout]
      exact hmore

/-- **With replacement** elements are drawn iff so many requests below their number are
answered. -/
theorem drawAgain_iff_answers {count : Nat} {xs : Array α} (taken : Array α)
    (hrow : row.drop drawn.length = List.replicate count xs.size) :
    (∃ taken', drawAgain xs count taken s = some (taken', s')) ↔
      Answers (inRow row) drawn s s' := by
  induction count generalizing taken drawn s with
  | zero =>
    rw [answers_of_none (inRow_of_drop_nil hrow)]
    simp [drawAgain]
  | succ more ih =>
    rw [List.replicate_succ] at hrow
    rw [answers_of_some (inRow_of_drop_cons hrow)]
    constructor
    · rintro ⟨taken', h⟩
      obtain ⟨j, x, t, hbelow, hx, hmore⟩ := exists_of_drawAgain_succ h
      obtain ⟨hj, -⟩ := Array.getElem?_eq_some_iff.mp hx
      have hrest := drop_of_drop_cons hrow j
      exact ⟨j, t, hbelow, hj, (ih (taken.push x) hrest).mp ⟨taken', hmore⟩⟩
    · rintro ⟨j, t, hbelow, hj, hanswers⟩
      have hrest := drop_of_drop_cons hrow j
      obtain ⟨taken', hmore⟩ := (ih (taken.push xs[j]) hrest).mpr hanswers
      refine ⟨taken', ?_⟩
      rw [drawAgain]
      simp only [hbelow, Array.getElem?_eq_getElem hj]
      exact hmore

/-! ## Until enough places are different -/

/-- The bound of the next place, while fewer different ones are drawn than asked for. -/
def untilDifferent (size count : Nat) (drawn : List Nat) : Option Nat :=
  if drawn.eraseDups.length < count then some size else none

section

variable {size count more : Nat} {places : Array Nat}

/-- A number that was drawn before does not count again. -/
theorem eraseDups_concat (drawn : List Nat) (j : Nat) :
    (drawn ++ [j]).eraseDups = if j ∈ drawn then drawn.eraseDups else drawn.eraseDups ++ [j] := by
  rw [List.eraseDups_append]
  split
  · next hold => simp [List.removeAll, hold]
  · next hnew => simp [List.removeAll, hnew, List.eraseDups_cons]

theorem contains_iff_drawn (hplaces : places.toList = drawn.eraseDups) (j : Nat) :
    places.contains j = true ↔ j ∈ drawn := by
  rw [Array.contains_iff_mem, ← Array.mem_toList_iff, hplaces, List.mem_eraseDups]

theorem untilDifferent_eq (hplaces : places.toList = drawn.eraseDups)
    (hcount : places.size + more = count) :
    untilDifferent size count drawn = if 0 < more then some size else none := by
  rw [untilDifferent, ← hplaces, Array.length_toList, ← hcount]
  congr 1
  simp only [eq_iff_iff]
  omega

/-- **Places** are drawn iff requests below the size are answered, until so many of the answers
are different. -/
theorem drawPlaces_iff_answers (places : Array Nat) (hplaces : places.toList = drawn.eraseDups)
    (hcount : places.size + more = count) :
    (∃ places', drawPlaces size more places s = some (places', s')) ↔
      Answers (untilDifferent size count) drawn s s' := by
  fun_induction drawPlaces size more places s generalizing drawn with
  | case1 places s =>
    rw [answers_of_none (untilDifferent_eq hplaces hcount)]
    simp
  | case2 places s more hbelow =>
    rw [answers_of_some (untilDifferent_eq hplaces hcount)]
    simp [hbelow]
  | case3 places s more j t hbelow hj =>
    rw [answers_of_some (untilDifferent_eq hplaces hcount)]
    simp [hbelow, Nat.not_lt.mpr hj]
  | case4 places s more j t hbelow hj hold ih =>
    have hsame : places.toList = (drawn ++ [j]).eraseDups := by
      rw [eraseDups_concat, if_pos ((contains_iff_drawn hplaces j).mp hold), hplaces]
    rw [answers_of_draw (untilDifferent_eq hplaces hcount) hbelow (Nat.not_le.mp hj)]
    exact ih hsame hcount
  | case5 places s more j t hbelow hj hnew ih =>
    have hpush : (places.push j).toList = (drawn ++ [j]).eraseDups := by
      rw [eraseDups_concat, if_neg (mt (contains_iff_drawn hplaces j).mpr hnew),
        Array.toList_push, hplaces]
    have hmore : (places.push j).size + more = count := by
      rw [Array.size_push]
      omega
    rw [answers_of_draw (untilDifferent_eq hplaces hcount) hbelow (Nat.not_le.mp hj)]
    exact ih hpush hmore

end

/-! ## Picks -/

/-- The bound of the number that is drawn next in order to pick elements. Nothing is drawn out
of nothing, or where all elements are picked in their order. -/
def nextBound (options : Options) (size : Nat) (drawn : List Nat) : Option Nat :=
  let count := options.count size
  if size = 0 ∨ options.keepOrder = true ∧ options.repeating = false ∧ size ≤ count then none
  else if drawsPlaces options size then untilDifferent size count drawn
  else inRow (bounds options size) drawn

section

variable {options : Options} {size : Nat}

theorem nextBound_of_repeating (hpos : 0 < size) (hrepeating : options.repeating = true) :
    nextBound options size = inRow (List.replicate (options.count size) size) := by
  funext drawn
  simp [nextBound, drawsPlaces, bounds, hrepeating, Nat.ne_zero_of_lt hpos]

theorem nextBound_of_few (hrepeating : options.repeating = false)
    (hfew : options.count size < size) :
    nextBound options size =
      if size ≤ poolLimit (options.count size) then inRow (countdown size (options.count size))
      else untilDifferent size (options.count size) := by
  funext drawn
  by_cases hpool : size ≤ poolLimit (options.count size)
  · simp [nextBound, drawsPlaces, bounds, hrepeating, hfew, hpool, Nat.ne_zero_of_lt hfew,
      Nat.not_le.mpr hfew, Nat.not_lt.mpr hpool]
  · simp [nextBound, drawsPlaces, hrepeating, hfew, hpool, Nat.ne_zero_of_lt hfew,
      Nat.not_le.mpr hfew, Nat.not_le.mp hpool]

theorem nextBound_of_all (hpos : 0 < size) (hrepeating : options.repeating = false)
    (hall : size ≤ options.count size) (hkeep : options.keepOrder = false) :
    nextBound options size = inRow (countdown size (size - 1)) := by
  funext drawn
  simp [nextBound, drawsPlaces, bounds, hkeep, hrepeating, Nat.not_lt.mpr hall,
    Nat.ne_zero_of_lt hpos]

/-- All elements in their order are listed without a draw. -/
theorem nextBound_of_listed (hrepeating : options.repeating = false)
    (hall : size ≤ options.count size) (hkeep : options.keepOrder = true) (drawn : List Nat) :
    nextBound options size drawn = none := by
  simp [nextBound, hkeep, hrepeating, hall]

end

variable {κ : Type} [LE κ] [DecidableLE κ]

/-- **Elements are picked iff the requests of the pick are answered**, and the source is then
left as the answers leave it. -/
theorem select_iff_answers (key : α → κ) (options : Options) (xs : Array α) (s s' : σ) :
    (∃ picks, select key options xs s = some (picks, s')) ↔
      Answers (nextBound options xs.size) [] s s' := by
  rcases select_cases key options xs s with ⟨rfl, heq⟩ | ⟨hpos, hrepeating, heq⟩ |
    ⟨hrepeating, hfew, heq⟩ | ⟨hpos, hrepeating, hall, heq⟩ <;> rw [heq]
  · rw [answers_of_none (by simp [nextBound])]
    simp
  · rw [nextBound_of_repeating hpos hrepeating, ← drawAgain_iff_answers #[] rfl]
    simp
  · rw [nextBound_of_few hrepeating hfew]
    by_cases hpool : xs.size ≤ poolLimit (options.count xs.size)
    · rw [if_pos hpool, ← drawOut_iff_answers #[] rfl]
      simp [sample, hpool]
    · rw [if_neg hpool, ← drawPlaces_iff_answers #[] rfl (Nat.zero_add _)]
      simp [sample, hpool]
  · cases hkeep : options.keepOrder with
    | true =>
      rw [answers_of_none (nextBound_of_listed hrepeating hall hkeep [])]
      simp
    | false =>
      rw [nextBound_of_all hpos hrepeating hall hkeep, ← drawOut_iff_answers #[] rfl]
      simp [shuffle]

end Selection

end Lots
