import ChangeWatch.Toml.Reader

/-!
# Words, and what is at a front

What a reader takes from the front of a text is what satisfies its test, up to the first
character that does not (`takeWhile_front`).  So a word is taken whole if something else follows
it, and is read as a value by what the word is (`value?_word`); it is no date unless it has a
dash where dates have one (`date?_eq_none`).
-/

namespace ChangeWatch.Toml

variable {cs rest word : List Char} {c : Char}

/-! ### Fronts -/

/-- What satisfies a test up to where the test first fails is all that is taken. -/
theorem takeWhile_front {p : Char → Bool} (h : ∀ c ∈ cs, p c = true)
    (hrest : ∀ c ∈ rest.head?, p c = false) : (cs ++ rest).takeWhile p = cs := by
  rw [List.takeWhile_append_of_pos h]
  cases rest with
  | nil => rw [List.takeWhile_nil, List.append_nil]
  | cons c more =>
    rw [List.takeWhile_cons_of_neg (by rw [hrest c rfl]; decide), List.append_nil]

/-- What satisfies a test up to where the test first fails is all that is dropped. -/
theorem dropWhile_front {p : Char → Bool} (h : ∀ c ∈ cs, p c = true)
    (hrest : ∀ c ∈ rest.head?, p c = false) : (cs ++ rest).dropWhile p = rest := by
  rw [List.dropWhile_append_of_pos h]
  cases rest with
  | nil => rfl
  | cons c more => rw [List.dropWhile_cons_of_neg (by rw [hrest c rfl]; decide)]

/-- A text is what is taken from its front, and what is left of it. -/
theorem takeWhile_append_drop (p : Char → Bool) (cs : List Char) :
    cs = cs.takeWhile p ++ cs.drop (cs.takeWhile p).length := by
  have htake := List.prefix_iff_eq_take.mp (List.takeWhile_prefix p (l := cs))
  calc cs = cs.take (cs.takeWhile p).length ++ cs.drop (cs.takeWhile p).length :=
        (List.take_append_drop _ _).symm
    _ = _ := by rw [← htake]

/-! ### Words -/

/-- A character of a word is no blank. -/
theorem isBlank_of_isWordChar (h : isWordChar c = true) : isBlank c = false := by
  refine Bool.eq_false_iff.mpr fun hblank => ?_
  unfold isBlank at hblank
  rw [Bool.or_eq_true, decide_eq_true_iff, decide_eq_true_iff] at hblank
  rcases hblank with rfl | rfl
  · exact absurd h (by decide)
  · exact absurd h (by decide)

theorem dropBlanks_word (hne : word ≠ []) (hword : ∀ c ∈ word, isWordChar c = true)
    (rest : List Char) : dropBlanks (word ++ rest) = word ++ rest := by
  cases word with
  | nil => exact absurd rfl hne
  | cons c more =>
    refine List.dropWhile_cons_of_neg ?_
    rw [isBlank_of_isWordChar (hword c List.mem_cons_self)]
    decide

/-- A date has a dash behind its year. -/
theorem date?_eq_none (h : '-' ∉ cs.drop 4) : date? cs = none := by
  have hdash : after? '-' (cs.drop 4) = none := by
    cases hdrop : cs.drop 4 with
    | nil => rfl
    | cons c rest =>
      refine if_neg fun heq => h ?_
      rw [hdrop, heq]
      exact List.mem_cons_self
  unfold date?
  cases hyear : fixedDigits? 4 cs with
  | none => rfl
  | some found =>
    have hrest : found.2 = cs.drop 4 := by
      by_cases hshort : cs.length < 4
      · rw [fixedDigits?, if_pos hshort] at hyear
        exact absurd hyear (by simp)
      · rw [fixedDigits?, if_neg hshort] at hyear
        obtain ⟨year, -, rfl⟩ := Option.map_eq_some_iff.mp hyear
        rfl
    show (after? '-' found.2).bind _ = none
    rw [hrest, hdash]
    rfl

/-- A word is taken up to the first character that may not stand in one. -/
theorem scalar_word (hword : ∀ c ∈ word, isWordChar c = true) (hdate : date? word = none)
    (hrest : ∀ c ∈ rest.head?, isWordChar c = false) :
    scalar (word ++ rest) = (word? word).map (·, rest) := by
  unfold scalar
  dsimp only
  rw [takeWhile_front hword hrest, hdate, List.drop_left]

/-- A word, at the front of a line or within it, is read as a value. -/
theorem value?_word (depth : Nat) (hne : word ≠ []) (hword : ∀ c ∈ word, isWordChar c = true)
    (hdate : date? word = none) (hrest : ∀ c ∈ rest.head?, isWordChar c = false) :
    value? (depth + 1) (word ++ rest) = (word? word).map (·, rest) := by
  have hscalar := scalar_word hword hdate hrest
  cases word with
  | nil => exact absurd rfl hne
  | cons d more =>
    have hd : isWordChar d = true := hword d List.mem_cons_self
    -- no other sort of value begins with such a character
    have hother : ∀ mark : Char, isWordChar mark = false → d ≠ mark := by
      rintro mark hmark rfl
      rw [hd] at hmark
      exact absurd hmark (by simp)
    have hflat : flat? (d :: more ++ rest) = scalar (d :: more ++ rest) := by
      unfold flat?
      split
      · next heq => exact absurd (List.cons.inj heq).1 (hother '"' (by decide))
      · next heq => exact absurd (List.cons.inj heq).1 (hother '\'' (by decide))
      · rfl
    unfold value?
    split
    · next heq => exact absurd (List.cons.inj heq).1 (hother '[' (by decide))
    · next heq => exact absurd (List.cons.inj heq).1 (hother '\x7b' (by decide))
    · exact hflat.trans hscalar

end ChangeWatch.Toml
