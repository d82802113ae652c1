import ChangeWatch.Proofs.Toml.Grammar
import ChangeWatch.Proofs.Toml.Integers
import ChangeWatch.Proofs.Toml.Words
import Mathlib.Data.Nat.Digits.Lemmas

/-!
# Integers and booleans are read as the grammar has them

The reader of digits yields exactly the digits of the grammar (`digits?_eq_some`), in any base,
and the reader of integers exactly its integers that fit 64 bits with sign (`integer?_eq_some`).

Integers and booleans are the `Simple` values.  One that stands at the front of a text is read if
no character of a word follows it (`value?_of_says`), and one that is read stands at the front
(`says_of_value?`).  That an integer is not taken for a date is due to its dash, which a date has
behind the year, and an integer at its front.
-/

namespace ChangeWatch.Toml

open Grammar

variable {base d : Nat} {c : Char} {cs t rest : List Char} {ds : List Nat} {n : Int} {v : Value}

/-! ### Digits -/

/-- A digit by its value, and the value by its digit. -/
theorem hexValue?_eq_some : hexValue? c = some d ↔ Digit 16 c d := by
  constructor
  · intro h
    -- every character with a value comes before the letter behind the last digit
    have hdigits : ∀ n < 103, ∀ d ∈ hexValue? (Char.ofNat n), d < 16 ∧
        (Char.ofNat n = Nat.digitChar d ∨ Char.ofNat n = (Nat.digitChar d).toUpper) := by
      decide +kernel
    have hsmall : c.toNat < 103 := by
      unfold hexValue? at h
      split at h
      · next hc => exact Nat.lt_of_le_of_lt hc.2 (by decide)
      split at h
      · next hc => exact Nat.lt_of_le_of_lt hc.2 (by decide)
      split at h
      · next hc => exact Nat.lt_of_le_of_lt hc.2 (by decide)
      · exact absurd h (by simp)
    have hc := hdigits c.toNat hsmall d
    rw [Char.ofNat_toNat] at hc
    obtain ⟨hd, rfl | rfl⟩ := hc h
    · exact .small hd
    · exact .capital hd
  · have hvalues : ∀ d < 16, hexValue? (Nat.digitChar d) = some d ∧
        hexValue? (Nat.digitChar d).toUpper = some d := by decide
    rintro (hd | hd)
    · exact (hvalues d hd).1
    · exact (hvalues d hd).2

theorem digit?_eq_some (hbase : base ≤ 16) : digit? base c = some d ↔ Digit base c d := by
  unfold digit?
  rw [Option.bind_eq_some_iff]
  constructor
  · rintro ⟨d', hvalue, hd⟩
    split at hd
    · next hlt =>
      obtain rfl := Option.some.inj hd
      cases hexValue?_eq_some.mp hvalue with
      | small _ => exact .small hlt
      | capital _ => exact .capital hlt
    · exact absurd hd (by simp)
  · rintro (hd | hd)
    · exact ⟨d, hexValue?_eq_some.mpr (.small (by omega)), if_pos hd⟩
    · exact ⟨d, hexValue?_eq_some.mpr (.capital (by omega)), if_pos hd⟩

/-- An underscore is no digit. -/
theorem digit?_underscore (base : Nat) : digit? base '_' = none := rfl

theorem Grammar.Digits.front (h : Digits base t ds) :
    ∃ c more d, t = c :: more ∧ Digit base c d := by
  cases h with
  | last hd => exact ⟨_, _, _, rfl, hd⟩
  | next hd _ => exact ⟨_, _, _, rfl, hd⟩
  | parted hd _ => exact ⟨_, _, _, rfl, hd⟩

theorem digits?_eq_some (hbase : base ≤ 16) : digits? base cs = some ds ↔ Digits base cs ds := by
  constructor
  · intro h
    fun_induction digits? base cs generalizing ds with
    | case1 => exact absurd h (by simp)
    | case2 c =>
      obtain ⟨d, hd, rfl⟩ := Option.map_eq_some_iff.mp h
      exact .last ((digit?_eq_some hbase).mp hd)
    | case3 c rest ih =>
      obtain ⟨d, hd, h⟩ := Option.bind_eq_some_iff.mp h
      obtain ⟨ds, hds, rfl⟩ := Option.map_eq_some_iff.mp h
      exact .parted ((digit?_eq_some hbase).mp hd) (ih hds)
    | case4 c rest _ _ ih =>
      obtain ⟨d, hd, h⟩ := Option.bind_eq_some_iff.mp h
      obtain ⟨ds, hds, rfl⟩ := Option.map_eq_some_iff.mp h
      exact .next ((digit?_eq_some hbase).mp hd) (ih hds)
  · intro h
    induction h with
    | last hd =>
      rw [digits?, (digit?_eq_some hbase).mpr hd]
      rfl
    | @next c d t ds hd ht ih =>
      obtain ⟨c', more, d', rfl, hd'⟩ := ht.front
      have hmark : c' ≠ '_' := by
        rintro rfl
        exact absurd ((digit?_eq_some hbase).mpr hd') (by rw [digit?_underscore]; simp)
      rw [digits?.eq_4 base c (c' :: more) (by simp) fun _ heq => hmark (List.cons.inj heq).1,
        (digit?_eq_some hbase).mpr hd, ih]
      rfl
    | @parted c d t ds hd ht ih =>
      rw [digits?, (digit?_eq_some hbase).mpr hd, ih]
      rfl

theorem number_eq_amount (base : Nat) (ds : List Nat) : number base ds = amount base ds := by
  rw [amount, Nat.ofDigits_eq_foldr, List.foldr_reverse]
  simp only [number, Nat.cast_id, Nat.add_comm]

theorem wholeDigits?_eq_some : wholeDigits? cs = some ds ↔ Whole cs ds := by
  unfold wholeDigits? Whole
  split
  · simp
  · next hzero =>
    rw [digits?_eq_some (by decide)]
    refine ⟨fun h => ⟨h, fun hfront => ?_⟩, And.left⟩
    obtain ⟨c, more, d, rfl, -⟩ := h.front
    obtain rfl := Option.some.inj hfront
    cases more with
    | nil => rfl
    | cons c' more => exact absurd rfl (hzero c' more)

/-! ### Integers -/

theorem fitting?_eq_some {m : Int} :
    fitting? n = some m ↔ n = m ∧ (Value.integer m).Fits := by
  unfold fitting?
  split
  · next h =>
    rw [Option.some.injEq]
    refine ⟨?_, And.left⟩
    rintro rfl
    exact ⟨rfl, h⟩
  · next h =>
    refine iff_of_false (by simp) ?_
    rintro ⟨rfl, hfits⟩
    exact h hfits

theorem splitSign_sign (cs : List Char) :
    ∃ sign, cs = sign ++ (splitSign cs).2 ∧ Sign sign (splitSign cs).1 := by
  unfold splitSign
  split
  · exact ⟨['-'], rfl, .minus⟩
  · exact ⟨['+'], rfl, .plus⟩
  · exact ⟨[], rfl, .unsaid⟩

/-- Digits have no sign in front. -/
theorem splitSign_digits {sign : List Char} {negative : Bool} (hsign : Sign sign negative)
    (h : Digits 10 t ds) : splitSign (sign ++ t) = (negative, t) := by
  cases hsign with
  | plus => rfl
  | minus => rfl
  | unsaid =>
    obtain ⟨c, more, d, rfl, hd⟩ := h.front
    have hvalue := (digit?_eq_some (by decide)).mpr hd
    show splitSign (c :: more) = _
    unfold splitSign
    split
    · next heq =>
      rw [(List.cons.inj heq).1] at hvalue
      exact absurd hvalue (by simp [digit?, hexValue?])
    · next heq =>
      rw [(List.cons.inj heq).1] at hvalue
      exact absurd hvalue (by simp [digit?, hexValue?])
    · rfl

/-- The integers that are read are those of the grammar that fit. -/
theorem integer?_eq_some : integer? cs = some n ↔ Integer cs n ∧ (Value.integer n).Fits := by
  have hbased : ∀ {base : Nat} {rest : List Char}, base ≤ 16 →
      ((digits? base rest).bind fun ds => fitting? (number base ds)) = some n →
      ∃ ds, Digits base rest ds ∧ (amount base ds : Int) = n ∧
        (Value.integer n).Fits := by
    intro base rest hbase h
    obtain ⟨ds, hds, hn⟩ := Option.bind_eq_some_iff.mp h
    obtain ⟨hn, hfits⟩ := fitting?_eq_some.mp hn
    rw [number_eq_amount] at hn
    exact ⟨ds, (digits?_eq_some hbase).mp hds, hn, hfits⟩
  have hread : ∀ {base : Nat} {rest : List Char} {ds : List Nat}, base ≤ 16 →
      Digits base rest ds → (Value.integer (amount base ds)).Fits →
      ((digits? base rest).bind fun ds => fitting? (number base ds)) =
        some (amount base ds : Int) := by
    intro base rest ds hbase hds hfits
    rw [(digits?_eq_some hbase).mpr hds, Option.bind_some, number_eq_amount]
    exact fitting?_eq_some.mpr ⟨rfl, hfits⟩
  constructor
  · intro h
    unfold integer? at h
    split at h
    · obtain ⟨ds, hds, rfl, hfits⟩ := hbased (by decide) h
      exact ⟨.hexadecimal hds, hfits⟩
    · obtain ⟨ds, hds, rfl, hfits⟩ := hbased (by decide) h
      exact ⟨.octal hds, hfits⟩
    · obtain ⟨ds, hds, rfl, hfits⟩ := hbased (by decide) h
      exact ⟨.binary hds, hfits⟩
    · obtain ⟨sign, hcs, hsign⟩ := splitSign_sign cs
      rcases hsplit : splitSign cs with ⟨negative, body⟩
      rw [hsplit] at h hcs hsign
      obtain ⟨ds, hds, hn⟩ := Option.bind_eq_some_iff.mp h
      obtain ⟨rfl, hfits⟩ := fitting?_eq_some.mp hn
      refine ⟨?_, hfits⟩
      rw [hcs, number_eq_amount]
      exact .decimal hsign (wholeDigits?_eq_some.mp hds)
  · rintro ⟨h, hfits⟩
    cases h with
    | hexadecimal hds => exact hread (by decide) hds hfits
    | octal hds => exact hread (by decide) hds hfits
    | binary hds => exact hread (by decide) hds hfits
    | @decimal sign t negative ds hsign hwhole =>
      -- a zero in front of a letter would be superfluous
      have hbase : ∀ letter rest, sign ++ t ≠ '0' :: letter :: rest := by
        intro letter rest heq
        cases hsign with
        | unsaid =>
          have hzero := hwhole.2 (by rw [show t = '0' :: letter :: rest from heq]; rfl)
          rw [show t = '0' :: letter :: rest from heq] at hzero
          exact absurd hzero (by simp)
        | plus => exact absurd (List.cons.inj heq).1 (by decide)
        | minus => exact absurd (List.cons.inj heq).1 (by decide)
      unfold integer?
      split
      · next heq => exact absurd heq (hbase _ _)
      · next heq => exact absurd heq (hbase _ _)
      · next heq => exact absurd heq (hbase _ _)
      · rw [splitSign_digits hsign hwhole.1]
        dsimp only
        rw [wholeDigits?_eq_some.mpr hwhole, Option.bind_some, number_eq_amount]
        exact fitting?_eq_some.mpr ⟨rfl, hfits⟩

/-! ### Simple values -/

/-- An integer or a boolean. -/
inductive Value.Simple : Value → Prop
  | integer (n : Int) : Simple (.integer n)
  | boolean (b : Bool) : Simple (.boolean b)

theorem Grammar.Digit.isWordChar (hbase : base ≤ 16) (h : Digit base c d) :
    isWordChar c = true ∧ c ≠ '-' := by
  have hdigits : ∀ d < 16, (Toml.isWordChar (Nat.digitChar d) = true ∧ Nat.digitChar d ≠ '-') ∧
      Toml.isWordChar (Nat.digitChar d).toUpper = true ∧ (Nat.digitChar d).toUpper ≠ '-' := by
    decide
  cases h with
  | small hd => exact (hdigits d (by omega)).1
  | capital hd => exact (hdigits d (by omega)).2

/-- Digits are written without a dash. -/
theorem Grammar.Digits.isWordChar (hbase : base ≤ 16) (h : Digits base t ds) :
    ∀ c ∈ t, isWordChar c = true ∧ c ≠ '-' := by
  induction h with
  | last hd => exact List.forall_mem_singleton.mpr (hd.isWordChar hbase)
  | next hd _ ih => exact List.forall_mem_cons.mpr ⟨hd.isWordChar hbase, ih⟩
  | parted hd _ ih =>
    exact List.forall_mem_cons.mpr
      ⟨hd.isWordChar hbase, List.forall_mem_cons.mpr ⟨⟨rfl, by decide⟩, ih⟩⟩

/-- An integer is a word, and has a dash at its front at most. -/
theorem Grammar.Integer.word (h : Integer t n) :
    t ≠ [] ∧ (∀ c ∈ t, isWordChar c = true) ∧ '-' ∉ t.tail := by
  have hbased : ∀ {base : Nat} {letter : Char} {t : List Char} {ds : List Nat}, base ≤ 16 →
      isWordChar letter = true → letter ≠ '-' → Digits base t ds →
      '0' :: letter :: t ≠ [] ∧ (∀ c ∈ '0' :: letter :: t, isWordChar c = true) ∧
        '-' ∉ ('0' :: letter :: t).tail := by
    intro base letter t ds hbase hletter hdash hds
    have hchars := hds.isWordChar hbase
    refine ⟨by simp, List.forall_mem_cons.mpr ⟨rfl, List.forall_mem_cons.mpr
      ⟨hletter, fun c hc => (hchars c hc).1⟩⟩, fun hmem => ?_⟩
    rcases List.mem_cons.mp hmem with heq | hmem
    · exact hdash heq.symm
    · exact (hchars _ hmem).2 rfl
  cases h with
  | hexadecimal hds => exact hbased (by decide) rfl (by decide) hds
  | octal hds => exact hbased (by decide) rfl (by decide) hds
  | binary hds => exact hbased (by decide) rfl (by decide) hds
  | @decimal sign t negative ds hsign hwhole =>
    have hchars := hwhole.1.isWordChar (by decide)
    have hword : ∀ c ∈ t, isWordChar c = true := fun c hc => (hchars c hc).1
    have hdash : '-' ∉ t := fun hmem => (hchars _ hmem).2 rfl
    obtain ⟨c, more, -, rfl, -⟩ := hwhole.1.front
    cases hsign with
    | unsaid => exact ⟨by simp, hword, fun hmem => hdash (List.mem_of_mem_tail hmem)⟩
    | plus => exact ⟨by simp, List.forall_mem_cons.mpr ⟨rfl, hword⟩, hdash⟩
    | minus => exact ⟨by simp, List.forall_mem_cons.mpr ⟨rfl, hword⟩, hdash⟩

/-- A simple value is a word, and has a dash at its front at most. -/
theorem Grammar.Says.word (h : Says t v) (hv : v.Simple) :
    t ≠ [] ∧ (∀ c ∈ t, isWordChar c = true) ∧ '-' ∉ t.tail := by
  cases h with
  | yes => exact ⟨by decide, List.all_eq_true.mp rfl, by decide⟩
  | no => exact ⟨by decide, List.all_eq_true.mp rfl, by decide⟩
  | integer hn => exact hn.word
  | _ => cases hv

theorem word?_of_says (h : Says t v) (hv : v.Simple) (hfits : v.Fits) : word? t = some v := by
  cases h with
  | yes => rfl
  | no => rfl
  | @integer t n hn =>
    have hread : integer? t = some n := integer?_eq_some.mpr ⟨hn, hfits⟩
    have htrue : integer? ['t', 'r', 'u', 'e'] = none := by decide
    have hfalse : integer? ['f', 'a', 'l', 's', 'e'] = none := by decide
    unfold word?
    split
    · exact absurd (htrue.symm.trans hread) (by simp)
    · exact absurd (hfalse.symm.trans hread) (by simp)
    · rw [hread]
  | _ => cases hv

/-- A simple value is read up to the first character that may not stand in a word. -/
theorem value?_of_says (depth : Nat) (h : Says t v) (hv : v.Simple) (hfits : v.Fits)
    (hrest : ∀ c ∈ rest.head?, isWordChar c = false) :
    value? (depth + 1) (t ++ rest) = some (v, rest) := by
  obtain ⟨hne, hword, htail⟩ := h.word hv
  have hdash : '-' ∉ t.drop 4 := fun hmem => by
    rw [← List.drop_tail] at hmem
    exact htail (List.mem_of_mem_drop hmem)
  rw [value?_word depth hne hword (date?_eq_none hdash) hrest, word?_of_says h hv hfits]
  rfl

theorem says_of_word? (h : word? cs = some v) (hv : v.Simple) : Says cs v := by
  unfold word? at h
  split at h
  · obtain rfl := Option.some.inj h
    exact .yes
  · obtain rfl := Option.some.inj h
    exact .no
  · split at h
    · next n hn =>
      obtain rfl := Option.some.inj h
      exact .integer (integer?_eq_some.mp hn).1
    · split at h
      · obtain rfl := Option.some.inj h
        cases hv
      · split at h
        · obtain rfl := Option.some.inj h
          cases hv
        · exact absurd h (by simp)

theorem says_of_scalar (h : scalar cs = some (v, rest)) (hv : v.Simple) :
    ∃ t, cs = t ++ rest ∧ Says t v := by
  unfold scalar at h
  dsimp only at h
  split at h
  · -- a date is no simple value
    split at h
    · obtain ⟨rfl, -⟩ := Prod.mk.inj (Option.some.inj h)
      cases hv
    · obtain ⟨rfl, -⟩ := Prod.mk.inj (Option.some.inj h)
      cases hv
  · obtain ⟨w, hw, heq⟩ := Option.map_eq_some_iff.mp h
    obtain ⟨rfl, rfl⟩ := Prod.mk.inj heq
    exact ⟨cs.takeWhile isWordChar, takeWhile_append_drop _ _, says_of_word? hw hv⟩

/-- What is composed of values is not simple. -/
theorem not_simple_of_compound? {item : List Char → Option (Value × List Char)} {opening : Char}
    (h : compound? item opening cs = some (v, rest)) : ¬v.Simple := by
  unfold compound? at h
  split at h
  · obtain ⟨vs, -, heq⟩ := Option.map_eq_some_iff.mp h
    obtain ⟨rfl, -⟩ := Prod.mk.inj heq
    exact fun hv => by cases hv
  · split at h
    · obtain ⟨rfl, -⟩ := Prod.mk.inj (Option.some.inj h)
      exact fun hv => by cases hv
    · obtain ⟨ps, -, h⟩ := Option.bind_eq_some_iff.mp h
      obtain ⟨fields, -, h⟩ := Option.bind_eq_some_iff.mp h
      obtain ⟨rfl, -⟩ := Prod.mk.inj (Option.some.inj h)
      exact fun hv => by cases hv

theorem says_of_flat? (h : flat? cs = some (v, rest)) (hv : v.Simple) :
    ∃ t, cs = t ++ rest ∧ Says t v := by
  have hstring : ∀ {found : Option (List Char × List Char)},
      (found.map fun read => (Value.string read.1, read.2)) = some (v, rest) → False := by
    intro found h
    obtain ⟨text, -, heq⟩ := Option.map_eq_some_iff.mp h
    obtain ⟨rfl, -⟩ := Prod.mk.inj heq
    cases hv
  unfold flat? at h
  split at h
  · exact (hstring h).elim
  · exact (hstring h).elim
  · exact says_of_scalar h hv

/-- A simple value that is read stands at the front. -/
theorem says_of_value? {depth : Nat} (h : value? depth cs = some (v, rest)) (hv : v.Simple) :
    ∃ t, cs = t ++ rest ∧ Says t v := by
  cases depth with
  | zero => exact says_of_flat? h hv
  | succ depth =>
    unfold value? at h
    split at h
    · exact absurd hv (not_simple_of_compound? h)
    · exact absurd hv (not_simple_of_compound? h)
    · exact says_of_flat? h hv

end ChangeWatch.Toml
