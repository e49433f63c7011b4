import Lots.CommandLine
import Lots.Proofs.Numeral.Refusal

/-!
# Lots — the query among the arguments

The query is one of the arguments, as it was typed: only plain arguments can be the query, and
these are left as they are.

* **`plain_of_classifyWord`**, **`mem_of_classifyWords`** — plain words are arguments.
* **`query_of_consume`** — the query is a plain word, since no switch touches it.
* **`query_of_parse`** — both together.
-/

namespace Lots.CommandLine

/-! ## Classification -/

theorem inFull?_ne_plain {text t : List Char} {word : Option (List Char) → Word}
    (h : inFull? text = some word) (attached : Option (List Char)) : word attached ≠ .plain t := by
  unfold inFull? at h
  split at h
  · obtain ⟨flag, -, rfl⟩ := Option.map_eq_some_iff.mp h
    nofun
  · obtain ⟨switch, -, rfl⟩ := Option.map_eq_some_iff.mp h
    nofun

theorem interpretations_ne_plain {text t : List Char} : .plain t ∉ interpretations text := by
  unfold interpretations
  split
  · simp
  · simp [Option.mem_toList, Option.map_eq_some_iff]
  · exact List.not_mem_nil

/-- A plain word is the argument itself. -/
theorem plain_of_classifyWord {text t : List Char} (h : classifyWord text = .ok (.plain t)) :
    t = text := by
  unfold classifyWord at h
  dsimp only at h
  split at h
  · next word hword =>
    exact absurd (Except.ok.inj h) (inFull?_ne_plain hword _)
  · next word _ hword =>
    exact absurd (Except.ok.inj h) (inFull?_ne_plain hword _)
  · split at h
    · next word hone =>
      rw [Except.ok.inj h] at hone
      exact absurd (hone ▸ List.mem_cons_self) interpretations_ne_plain
    · split at h
      · cases h
        rfl
      · cases h
    · cases h
  · cases h
    rfl

theorem mem_of_classifyWords {texts : List (List Char)} {words : List Word}
    (h : classifyWords texts = .ok words) {t : List Char} (ht : .plain t ∈ words) : t ∈ texts := by
  induction texts generalizing words with
  | nil =>
    cases h
    cases ht
  | cons text rest ih =>
    rw [classifyWords] at h
    split at h
    · cases h
      rcases List.mem_cons.mp ht with hdashes | ht
      · cases hdashes
      · obtain ⟨u, hu, heq⟩ := List.mem_map.mp ht
        cases heq
        exact List.mem_cons_of_mem _ hu
    · obtain ⟨word, hword, h⟩ := bind_eq_ok_iff.mp h
      obtain ⟨more, hmore, h⟩ := bind_eq_ok_iff.mp h
      cases h
      rcases List.mem_cons.mp ht with rfl | ht
      · exact List.mem_cons.mpr (.inl (plain_of_classifyWord hword))
      · exact List.mem_cons_of_mem _ (ih hmore ht)

/-! ## Consumption -/

namespace Arguments

theorem query_of_setFlag {a b : Arguments} {flag : Flag} (h : a.setFlag flag = .ok b) :
    b.query = a.query := by
  cases flag <;> cases h <;> rfl

theorem query_of_setFlags {a b : Arguments} {flags : List Flag} (h : a.setFlags flags = .ok b) :
    b.query = a.query := by
  induction flags generalizing a with
  | nil =>
    cases h
    rfl
  | cons flag rest ih =>
    obtain ⟨c, hc, h⟩ := bind_eq_ok_iff.mp h
    rw [ih h, query_of_setFlag hc]

theorem query_of_setValue {a b : Arguments} {setting : Setting} {text : List Char}
    (h : a.setValue setting text = .ok b) : b.query = a.query := by
  unfold setValue at h
  split at h
  · split at h
    · cases h
      rfl
    · cases h
  all_goals
    cases h
    rfl

/-- What a query may be, behind a word that leaves the query alone. -/
theorem query_behind {a c : Arguments} {word : Word} {rest : List Word} (hc : c.query = a.query)
    {query : List Char} (h : query ∈ c.query ∨ .plain query ∈ rest) :
    query ∈ a.query ∨ .plain query ∈ word :: rest := by
  rcases h with hbefore | hword
  · exact .inl (hc ▸ hbefore)
  · exact .inr (List.mem_cons_of_mem word hword)

/-- The query is the one that is there before, or it is a plain word. -/
theorem query_of_consume {b : Arguments} (a : Arguments) (afterQuery : Bool)
    (misplaced : List (List Char)) (words : List Word) :
    a.consume afterQuery misplaced words = .ok b →
      ∀ query ∈ b.query, query ∈ a.query ∨ .plain query ∈ words := by
  fun_induction consume a afterQuery misplaced words with
  | case1 a afterQuery misplaced hnone =>
    rintro ⟨⟩ query hquery
    exact .inl hquery
  | case2 => nofun
  | case3 a afterQuery misplaced text rest hnone ih =>
    -- the first plain word becomes the query
    intro h query hquery
    right
    rcases ih h query hquery with htext | hword
    · cases htext
      exact List.mem_cons_self
    · exact List.mem_cons_of_mem _ hword
  | case4 a afterQuery misplaced text rest hsome ih =>
    exact fun h query hquery => query_behind rfl (ih h query hquery)
  | case5 a afterQuery misplaced rest hnext ih =>
    exact fun h query hquery => query_behind rfl (ih h query hquery)
  | case6 a afterQuery misplaced rest hnext ih =>
    exact fun h query hquery => query_behind rfl (ih h query hquery)
  | case7 a afterQuery misplaced text rest ih =>
    exact fun h query hquery => query_behind rfl (ih h query hquery)
  | case8 a afterQuery misplaced flag attached rest ih =>
    intro h query hquery
    obtain ⟨flags, -, h⟩ := bind_eq_ok_iff.mp h
    obtain ⟨c, hc, h⟩ := bind_eq_ok_iff.mp h
    exact query_behind (query_of_setFlags hc) (ih c h query hquery)
  | case9 a afterQuery misplaced flag rest ih =>
    intro h query hquery
    obtain ⟨c, hc, h⟩ := bind_eq_ok_iff.mp h
    exact query_behind (query_of_setFlag hc) (ih c h query hquery)
  | case10 => nofun
  | case11 a afterQuery misplaced setting text rest ih =>
    intro h query hquery
    obtain ⟨c, hc, h⟩ := bind_eq_ok_iff.mp h
    exact query_behind (query_of_setValue hc) (ih c h query hquery)
  | case12 a afterQuery misplaced setting text rest ih =>
    intro h query hquery
    obtain ⟨c, hc, h⟩ := bind_eq_ok_iff.mp h
    have hrest : query ∈ a.query ∨ .plain query ∈ Word.plain text :: rest :=
      query_behind (query_of_setValue hc) (ih c h query hquery)
    exact query_behind rfl hrest
  | case13 => nofun

/-- **The query is one of the arguments.** -/
theorem query_of_parse {texts : List (List Char)} {args : Arguments} (h : parse texts = .ok args) :
    ∀ query ∈ args.query, query ∈ texts := by
  intro query hquery
  obtain ⟨words, hwords, h⟩ := bind_eq_ok_iff.mp h
  rcases query_of_consume {} false [] words h query hquery with hnone | hplain
  · cases hnone
  · cases hclassify : classifyWords texts with
    | error error =>
      rw [hclassify] at hwords
      cases hwords
    | ok found =>
      rw [hclassify] at hwords
      cases hwords
      exact mem_of_classifyWords hclassify hplain

end Arguments

end Lots.CommandLine
