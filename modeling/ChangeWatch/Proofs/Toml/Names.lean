import ChangeWatch.Proofs.Text.Utf8
import ChangeWatch.Proofs.Toml.Numerals

/-!
# The parts of keys are read as the grammar has them

A string in quotes is read exactly if it is one of the grammar, be it in double quotes
(`basicString_complete`, `basicString_sound`), with all its escapes, or in single ones.  So a
part of a key, bare or quoted, is read up to the first character that may not stand in a bare key
(`keyPart?_complete`), and what is read is a part of a key (`keyPart?_sound`).
-/

namespace ChangeWatch.Toml

open Grammar

variable {c : Char} {cs t s rest : List Char} {ds : List Nat} {n : Nat} {name : Name}

/-! ### Escapes -/

theorem foldlM_hexValue? (cs : List Char) (n m : Nat) :
    cs.foldlM (fun n c => (hexValue? c).map (16 * n + ·)) n = some m ↔
      ∃ ds, List.Forall₂ (Digit 16) cs ds ∧ m = ds.foldl (fun n d => 16 * n + d) n := by
  induction cs generalizing n with
  | nil =>
    rw [List.foldlM_nil]
    constructor
    · intro h
      exact ⟨[], .nil, (Option.some.inj h).symm⟩
    · rintro ⟨ds, hds, rfl⟩
      cases hds
      rfl
  | cons c more ih =>
    rw [List.foldlM_cons, Option.bind_eq_bind, Option.bind_eq_some_iff]
    constructor
    · rintro ⟨first, hfirst, h⟩
      obtain ⟨d, hd, rfl⟩ := Option.map_eq_some_iff.mp hfirst
      obtain ⟨ds, hds, rfl⟩ := (ih _).mp h
      exact ⟨d :: ds, .cons (hexValue?_eq_some.mp hd) hds, rfl⟩
    · rintro ⟨ds, hds, rfl⟩
      cases hds with
      | cons hd hds =>
        exact ⟨_, by rw [hexValue?_eq_some.mpr hd]; rfl, (ih _).mpr ⟨_, hds, rfl⟩⟩

/-- The number of hexadecimal digits. -/
theorem hexNumber?_eq_some :
    hexNumber? cs = some n ↔ ∃ ds, List.Forall₂ (Digit 16) cs ds ∧ n = amount 16 ds := by
  simp only [← number_eq_amount]
  exact foldlM_hexValue? cs 0 n

/-- The numbers of characters are the scalar values. -/
theorem scalar?_eq_some : scalar? n = some c ↔ n = c.toNat := by
  unfold scalar?
  constructor
  · intro h
    split at h
    · next hn =>
      obtain rfl := Option.some.inj h
      exact (Utf8.toNat_ofNat hn).symm
    · exact absurd h (by simp)
  · rintro rfl
    rw [Char.ofNat_toNat]
    exact if_pos c.valid

/-- A code point of so many digits, put before what was read behind it. -/
theorem escape_eq_some (count : Nat) (hcount : cs.length = count)
    {read : Option (List Char × List Char)} {found : List Char × List Char} :
    ((hexNumber? cs).bind fun n => (scalar? n).bind fun c => push c <$> read) = some found ↔
      ∃ c more, Fixed 16 count cs c.toNat ∧ read = some more ∧ push c more = found := by
  unfold Fixed
  simp only [Option.bind_eq_some_iff, Option.map_eq_map, Option.map_eq_some_iff,
    hexNumber?_eq_some, scalar?_eq_some]
  constructor
  · rintro ⟨n, hn, c, rfl, more, hread, hfound⟩
    exact ⟨c, more, ⟨hcount, hn⟩, hread, hfound⟩
  · rintro ⟨c, more, ⟨-, hn⟩, hread, hfound⟩
    exact ⟨c.toNat, hn, c, rfl, more, hread, hfound⟩

/-! ### Strings -/

theorem basicString_complete (h : BasicText t s) (rest : List Char) :
    basicString (t ++ '"' :: rest) = some (s, rest) := by
  -- on the text as the grammar builds it, character by character
  induction h with
  | nil => rfl
  | @plain c t s hplain hquote hslash _ ih =>
    show basicString (c :: (t ++ '"' :: rest)) = _
    unfold basicString
    split
    · next heq => exact absurd heq (by simp)
    · next heq => exact absurd (List.cons.inj heq).1 hquote
    · next heq => exact absurd (List.cons.inj heq).1 hslash
    · next heq => exact absurd (List.cons.inj heq).1 hslash
    · next heq => exact absurd (List.cons.inj heq).1 hslash
    · next heq =>
      obtain ⟨rfl, rfl⟩ := List.cons.inj heq
      rw [if_pos hplain, ih]
      rfl
  | @escape e t s c hescape _ ih =>
    cases hescape with
    | @letter letter _ hletter =>
      -- a letter of an escape is not one of the two marks that ask for a code point
      have hother : ∀ {mark}, escapeLetter? mark = none → letter ≠ mark := by
        rintro mark hnone rfl
        rw [hnone] at hletter
        exact absurd hletter (by simp)
      show basicString ('\\' :: letter :: (t ++ '"' :: rest)) = _
      unfold basicString
      split
      · next heq => exact absurd heq (by simp)
      · next heq => exact absurd (List.cons.inj heq).1 (by decide)
      · next heq => exact absurd (List.cons.inj (List.cons.inj heq).2).1 (hother rfl)
      · next heq => exact absurd (List.cons.inj (List.cons.inj heq).2).1 (hother rfl)
      · next heq =>
        obtain ⟨rfl, rfl⟩ := List.cons.inj (List.cons.inj heq).2
        rw [hletter, ih]
        rfl
      · next hnot heq =>
        obtain ⟨rfl, rfl⟩ := List.cons.inj heq
        exact (hnot _ _ rfl rfl).elim
    | @short u _ hu =>
      match u, hu.1 with
      | [_, _, _, _], hlength => exact (escape_eq_some 4 hlength).mpr ⟨c, _, hu, ih, rfl⟩
    | @long u _ hu =>
      match u, hu.1 with
      | [_, _, _, _, _, _, _, _], hlength =>
        exact (escape_eq_some 8 hlength).mpr ⟨c, _, hu, ih, rfl⟩

theorem basicString_sound (h : basicString cs = some (s, rest)) :
    ∃ t, cs = t ++ '"' :: rest ∧ BasicText t s := by
  fun_induction basicString cs generalizing s with
  | case1 => exact absurd h (by simp)
  | case2 more =>
    obtain ⟨rfl, rfl⟩ := Prod.mk.inj (Option.some.inj h)
    exact ⟨[], rfl, .nil⟩
  | case3 a b c d more ih =>
    obtain ⟨ch, ⟨s, _⟩, hch, hmore, hfound⟩ := (escape_eq_some 4 rfl).mp h
    obtain ⟨rfl, rfl⟩ := Prod.mk.inj hfound
    obtain ⟨t, rfl, ht⟩ := ih hmore
    exact ⟨['\\', 'u', a, b, c, d] ++ t, rfl, .escape (.short hch) ht⟩
  | case4 a b c d e f g k more ih =>
    obtain ⟨ch, ⟨s, _⟩, hch, hmore, hfound⟩ := (escape_eq_some 8 rfl).mp h
    obtain ⟨rfl, rfl⟩ := Prod.mk.inj hfound
    obtain ⟨t, rfl, ht⟩ := ih hmore
    exact ⟨['\\', 'U', a, b, c, d, e, f, g, k] ++ t, rfl, .escape (.long hch) ht⟩
  | case5 letter more _ _ ih =>
    obtain ⟨ch, hch, h⟩ := Option.bind_eq_some_iff.mp h
    obtain ⟨⟨s, _⟩, hmore, hfound⟩ := Option.map_eq_some_iff.mp h
    obtain ⟨rfl, rfl⟩ := Prod.mk.inj hfound
    obtain ⟨t, rfl, ht⟩ := ih hmore
    exact ⟨['\\', letter] ++ t, rfl, .escape (.letter hch) ht⟩
  | case6 c more hquote hshort hlong hslash hplain ih =>
    obtain ⟨⟨s, _⟩, hmore, hfound⟩ := Option.map_eq_some_iff.mp h
    obtain ⟨rfl, rfl⟩ := Prod.mk.inj hfound
    obtain ⟨t, rfl, ht⟩ := ih hmore
    -- a backslash would have been read together with what stands behind it
    have hne : c ≠ '\\' := by
      rintro rfl
      cases t with
      | nil => exact hslash _ _ rfl rfl
      | cons => exact hslash _ _ rfl rfl
    exact ⟨c :: t, rfl, .plain hplain hquote hne ht⟩
  | case7 => exact absurd h (by simp)

theorem literalString_complete (h : LiteralText t) (rest : List Char) :
    literalString (t ++ '\'' :: rest) = some (t, rest) := by
  induction t with
  | nil => rfl
  | cons c t ih =>
    obtain ⟨⟨hplain, hquote⟩, ht⟩ := List.forall_mem_cons.mp h
    show literalString (c :: (t ++ '\'' :: rest)) = _
    unfold literalString
    split
    · next heq => exact absurd heq (by simp)
    · next heq => exact absurd (List.cons.inj heq).1 hquote
    · next heq =>
      obtain ⟨rfl, rfl⟩ := List.cons.inj heq
      rw [if_pos hplain, ih ht]
      rfl

theorem literalString_sound (h : literalString cs = some (s, rest)) :
    cs = s ++ '\'' :: rest ∧ LiteralText s := by
  fun_induction literalString cs generalizing s with
  | case1 => exact absurd h (by simp)
  | case2 more =>
    obtain ⟨rfl, rfl⟩ := Prod.mk.inj (Option.some.inj h)
    exact ⟨rfl, fun c hc => absurd hc List.not_mem_nil⟩
  | case3 c more hquote hplain ih =>
    obtain ⟨⟨s, _⟩, hmore, hfound⟩ := Option.map_eq_some_iff.mp h
    obtain ⟨rfl, rfl⟩ := Prod.mk.inj hfound
    obtain ⟨rfl, hs⟩ := ih hmore
    exact ⟨rfl, List.forall_mem_cons.mpr ⟨⟨hplain, hquote⟩, hs⟩⟩
  | case4 => exact absurd h (by simp)

/-! ### Keys of one part -/

/-- A part of a key begins with a quote or a character of a bare key. -/
theorem Grammar.KeyPart.front (h : KeyPart t name) :
    ∃ c more, t = c :: more ∧ (isBareChar c = true ∨ c = '"' ∨ c = '\'') := by
  cases h with
  | bare hne hall =>
    cases t with
    | nil => exact absurd rfl hne
    | cons c more => exact ⟨c, more, rfl, Or.inl (hall c List.mem_cons_self)⟩
  | basic _ => exact ⟨_, _, rfl, Or.inr (Or.inl rfl)⟩
  | literal _ => exact ⟨_, _, rfl, Or.inr (Or.inr rfl)⟩

/-- A bare key is taken up to the first character that may not stand in one. -/
theorem keyPart?_bare (hne : t ≠ []) (hall : ∀ c ∈ t, isBareChar c = true)
    (hrest : ∀ c ∈ rest.head?, isBareChar c = false) : keyPart? (t ++ rest) = some (t, rest) := by
  have htake := takeWhile_front hall hrest
  cases t with
  | nil => exact absurd rfl hne
  | cons c more =>
    have hc := hall c List.mem_cons_self
    have hother : ∀ mark : Char, isBareChar mark = false → c ≠ mark := by
      rintro mark hmark rfl
      rw [hc] at hmark
      exact absurd hmark (by simp)
    unfold keyPart?
    split
    · next heq => exact absurd (List.cons.inj heq).1 (hother '"' (by decide))
    · next heq => exact absurd (List.cons.inj heq).1 (hother '\'' (by decide))
    · rw [htake]
      show some (c :: more, List.drop (c :: more).length (c :: more ++ rest)) = _
      rw [List.drop_left]

/-- A part of a key is read up to the first character that may not stand in a bare key. -/
theorem keyPart?_complete (h : KeyPart t name) (hrest : ∀ c ∈ rest.head?, isBareChar c = false) :
    keyPart? (t ++ rest) = some (name, rest) := by
  cases h with
  | bare hne hall => exact keyPart?_bare hne hall hrest
  | @basic t s ht =>
    show basicString (t ++ ['"'] ++ rest) = _
    rw [List.append_assoc]
    exact basicString_complete ht rest
  | @literal t ht =>
    show literalString (name ++ ['\''] ++ rest) = _
    rw [List.append_assoc]
    exact literalString_complete ht rest

theorem keyPart?_sound (h : keyPart? cs = some (name, rest)) :
    ∃ t, cs = t ++ rest ∧ KeyPart t name := by
  unfold keyPart? at h
  split at h
  · obtain ⟨t, rfl, ht⟩ := basicString_sound h
    exact ⟨'"' :: t ++ ['"'], by simp, .basic ht⟩
  · obtain ⟨rfl, hname⟩ := literalString_sound h
    exact ⟨'\'' :: name ++ ['\''], by simp, .literal hname⟩
  · split at h
    · exact absurd h (by simp)
    · next hne =>
      obtain ⟨rfl, rfl⟩ := Prod.mk.inj (Option.some.inj h)
      exact ⟨cs.takeWhile isBareChar, takeWhile_append_drop _ _,
        .bare hne (List.all_eq_true.mp List.all_takeWhile)⟩

end ChangeWatch.Toml
