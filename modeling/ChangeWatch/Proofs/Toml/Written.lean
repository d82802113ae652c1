import ChangeWatch.Proofs.Toml.Documents

/-!
# Documents that are written line by line

Fields with simple values, written one on every line (`Spelled`), make a document of the grammar
(`lines_written`).  If no name comes twice, it is read back field by field (`document?_written`).

A number is written by its decimal digits.  These are an integer of the grammar
(`integer_toDigits`), since none of them is a superfluous zero (`toDigits_zero_front`).
-/

namespace ChangeWatch.Toml

open Grammar

variable {c : Char} {ds : List Char} {n : Nat} {fields : List (List Char × List Char × Value)}

/-! ### Decimal digits -/

theorem digit_of_isDigit (h : c.isDigit = true) : Digit 10 c (c.toNat - 48) := by
  have hbounds : 48 ≤ c.toNat ∧ c.toNat ≤ 57 := Char.isDigit_iff_toNat.mp h
  have hdigits : ∀ n < 58, 48 ≤ n → Char.ofNat n = Nat.digitChar (n - 48) := by decide
  have hc := hdigits c.toNat (by omega) hbounds.1
  rw [Char.ofNat_toNat] at hc
  have hsmall : Digit 10 (Nat.digitChar (c.toNat - 48)) (c.toNat - 48) := .small (by omega)
  rwa [← hc] at hsmall

theorem digits_of_isDigit (hne : ds ≠ []) (h : ∀ c ∈ ds, c.isDigit = true) :
    Digits 10 ds (ds.map fun c => c.toNat - 48) := by
  induction ds with
  | nil => exact absurd rfl hne
  | cons c more ih =>
    obtain ⟨hc, hmore⟩ := List.forall_mem_cons.mp h
    cases more with
    | nil => exact .last (digit_of_isDigit hc)
    | cons d more => exact .next (digit_of_isDigit hc) (ih (List.cons_ne_nil _ _) hmore)

theorem amount_digits (ds : List Char) :
    amount 10 (ds.map fun c => c.toNat - 48) = Nat.ofDigitChars 10 ds 0 := by
  rw [← number_eq_amount, Nat.ofDigitChars_eq_foldl, number, List.foldl_map]
  rfl

/-- The digits of a number begin with a zero only if there is no other. -/
theorem toDigits_zero_front {rest : List Char} (n : Nat) :
    Nat.toDigits 10 n = '0' :: rest → rest = [] := by
  induction n using Nat.strongRecOn generalizing rest with
  | _ n ih =>
  intro h
  by_cases hsmall : n < 10
  · rw [Nat.toDigits_of_lt_base hsmall] at h
    exact (List.cons.inj h).2.symm
  · rw [Nat.toDigits_of_base_le (by decide) (Nat.not_lt.mp hsmall)] at h
    -- the zero would be the first digit of a tenth of the number, and so the only one
    cases htenth : Nat.toDigits 10 (n / 10) with
    | nil => exact absurd htenth Nat.toDigits_ne_nil
    | cons d more =>
      rw [htenth] at h
      obtain ⟨rfl, -⟩ := List.cons.inj h
      obtain rfl := ih (n / 10) (by omega) htenth
      have hvalue : Nat.ofDigitChars 10 (Nat.toDigits 10 (n / 10)) 0 = n / 10 :=
        Nat.ofDigitChars_ten_toDigits
      rw [htenth] at hvalue
      have hzero : n / 10 = 0 := hvalue.symm
      omega

theorem integer_toDigits (n : Nat) : Integer (Nat.toDigits 10 n) n := by
  have hdigits : ∀ c ∈ Nat.toDigits 10 n, c.isDigit = true :=
    fun _ hc => Nat.isDigit_of_mem_toDigits (by decide) (by decide) hc
  have hread := digits_of_isDigit Nat.toDigits_ne_nil hdigits
  have hzero : (Nat.toDigits 10 n).head? = some '0' → Nat.toDigits 10 n = ['0'] := by
    intro hfront
    obtain ⟨rest, hrest⟩ := List.head?_eq_some_iff.mp hfront
    rw [hrest, toDigits_zero_front n hrest]
  have hinteger := Integer.decimal .unsaid ⟨hread, hzero⟩
  rwa [amount_digits, Nat.ofDigitChars_ten_toDigits] at hinteger

/-! ### Lines -/

/-- A field on a line of its own. -/
def line (name text : List Char) : List Char :=
  name ++ ' ' :: '=' :: ' ' :: (text ++ ['\n'])

/-- A field whose name needs no quotes, the text of its value, and the value, a simple one. -/
structure Spelled (f : List Char × List Char × Value) : Prop where
  name : KeyPart f.1 f.1
  value : Says f.2.1 f.2.2
  simple : f.2.2.Simple
  fits : f.2.2.Fits

theorem lines_written (h : ∀ f ∈ fields, Spelled f) :
    Lines (fields.flatMap fun f => line f.1 f.2.1) (fields.map fun f => .pair [f.1] f.2.2) := by
  have hnone : Blanks [] := List.forall_mem_nil _
  have hblank : Blanks [' '] := List.forall_mem_singleton.mpr rfl
  induction fields with
  | nil => exact .last (.unsaid (.blanks hnone))
  | cons f more ih =>
    obtain ⟨hf, hmore⟩ := List.forall_mem_cons.mp h
    have hpair := Pair.mk (.simple hf.name) hblank hblank hf.value
    have hlines := Lines.more (.pair hnone hpair (.blanks hnone)) .feed (ih hmore)
    have htext : [] ++ (f.1 ++ [' '] ++ '=' :: [' '] ++ f.2.1) ++ [] ++ ['\n'] =
        line f.1 f.2.1 := by
      simp [line]
    rw [htext] at hlines
    exact hlines

/-- A document with one field on every line is read back. -/
theorem document?_written (h : ∀ f ∈ fields, Spelled f) (hnodup : (fields.map (·.1)).Nodup) :
    document? (fields.flatMap fun f => line f.1 f.2.1) =
      some (fields.map fun f => (f.1, f.2.2)) := by
  have hfields : Fields.Simple (fields.map fun f => (f.1, f.2.2)) := by
    intro g hg
    obtain ⟨f, hf, rfl⟩ := List.mem_map.mp hg
    exact ⟨(h f hf).simple, (h f hf).fits⟩
  have hlines := lines_written h
  rw [document?_eq_some_iff hfields, hlines.dropMark]
  refine ⟨_, hlines, (assembled_eq_some_iff hfields.not_tabled).mpr ⟨?_, ?_⟩⟩
  · rw [List.map_map]
    rfl
  · rw [List.map_map]
    exact hnodup

end ChangeWatch.Toml
