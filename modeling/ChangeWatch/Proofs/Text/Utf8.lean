import ChangeWatch.Text.Utf8
import Mathlib.Data.List.Basic

/-!
# UTF-8: reading and writing undo each other

`Spells bytes c` says that a first byte and the continuation it promises are
the character `c`.  It is tied to both sides once: the encoding of a character
spells it, and whatever spells a character is its encoding.  Hence the chunks
of a byte string lose nothing, the chunks of an encoded text are its
characters, and `decode?` succeeds on the encodings of texts and on nothing
else.

All arithmetic is on the numbers of bytes; the three forms of a first byte
that promises more differ only in the bits they keep and in what the range of
the second byte excludes, and `lead?_forms` says both.
-/

namespace ChangeWatch.Utf8

/-! ### First bytes -/

/-- The three forms of a first byte that promises more bytes, each with its
payload and the range of the second byte. -/
theorem lead?_forms {b : UInt8} {l : Lead} (h : lead? b = some l) :
    (l.more = 1 ∧ 0xC2 ≤ b.toNat ∧ b.toNat ≤ 0xDF ∧ l.bits = b.toNat - 0xC0 ∧
      l.low.toNat = 0x80 ∧ l.high.toNat = 0xBF) ∨
    (l.more = 2 ∧ 0xE0 ≤ b.toNat ∧ b.toNat ≤ 0xEF ∧ l.bits = b.toNat - 0xE0 ∧
      l.low.toNat = (if b.toNat = 0xE0 then 0xA0 else 0x80) ∧
      l.high.toNat = (if b.toNat = 0xED then 0x9F else 0xBF)) ∨
    (l.more = 3 ∧ 0xF0 ≤ b.toNat ∧ b.toNat ≤ 0xF4 ∧ l.bits = b.toNat - 0xF0 ∧
      l.low.toNat = (if b.toNat = 0xF0 then 0x90 else 0x80) ∧
      l.high.toNat = (if b.toNat = 0xF4 then 0x8F else 0xBF)) := by
  simp only [lead?, UInt8.le_iff_toNat_le, ← UInt8.toNat_inj, UInt8.reduceToNat] at h
  split_ifs at h <;> cases h <;> simp only [UInt8.reduceToNat] <;> grind

/-- Every byte from `C2` to `F4` begins a longer character. -/
theorem lead?_of_range {b : UInt8} (hl : 0xC2 ≤ b.toNat) (hh : b.toNat ≤ 0xF4) :
    ∃ l, lead? b = some l := by
  simp only [lead?, UInt8.le_iff_toNat_le, ← UInt8.toNat_inj, UInt8.reduceToNat]
  split_ifs
  all_goals first
    | exact ⟨_, rfl⟩
    | omega

/-! ### What a continuation takes -/

/-- A continuation is complete when every byte is in its range. -/
theorem continuation_cons_eq {n : Nat} {low high b : UInt8} {bs : Bytes} :
    continuation (n + 1) low high (b :: bs) = (b :: bs, []) ↔
      (low.toNat ≤ b.toNat ∧ b.toNat ≤ high.toNat) ∧
        continuation n 0x80 0xBF bs = (bs, []) := by
  simp only [continuation, UInt8.le_iff_toNat_le]
  split
  · next hb => simp [hb, Prod.ext_iff]
  · next hb => simp [hb]

/-- A continuation that was complete stays so whatever comes behind it. -/
theorem continuation_append_rest {n : Nat} {low high : UInt8} {tail : Bytes} (rest : Bytes)
    (hn : tail.length = n) (h : continuation n low high tail = (tail, [])) :
    continuation n low high (tail ++ rest) = (tail, rest) := by
  induction n generalizing low high tail with
  | zero =>
    rw [List.eq_nil_of_length_eq_zero hn]
    rfl
  | succ n ih =>
    obtain ⟨b, tail, rfl⟩ := List.exists_cons_of_length_eq_add_one hn
    simp only [continuation, List.cons_append] at h ⊢
    split at h
    · next hb =>
      obtain ⟨htaken, hleft⟩ := Prod.mk.inj h
      have htail := ih (by simpa using hn) (Prod.ext (List.cons.inj htaken).2 hleft)
      rw [if_pos hb, htail]
    · simp at h

/-- What a continuation takes is complete by itself. -/
theorem continuation_of_taken {n : Nat} {low high : UInt8} {bs : Bytes}
    (hn : (continuation n low high bs).1.length = n) :
    continuation n low high (continuation n low high bs).1 =
      ((continuation n low high bs).1, []) := by
  induction n generalizing low high bs with
  | zero => rfl
  | succ n ih =>
    cases bs with
    | nil => simp [continuation] at hn
    | cons b bs =>
      simp only [continuation] at hn ⊢
      split at hn
      · next hb =>
        have htail := ih (by simpa using hn)
        simp only [if_pos hb, continuation, htail]
      · simp at hn

/-! ### Bytes that spell a character -/

/-- A first byte, with the continuation that it promises, is a character. -/
inductive Spells : Bytes → Char → Prop where
  | one {b : UInt8} (plain : b < 0x80) : Spells [b] (Char.ofNat b.toNat)
  | more {b : UInt8} {l : Lead} {tail : Bytes} (lead : lead? b = some l)
      (length : tail.length = l.more)
      (whole : continuation l.more l.low l.high tail = (tail, [])) :
      Spells (b :: tail) (Char.ofNat (codePoint l.bits tail))

/-- No first byte of a longer character is below `80`. -/
theorem not_plain_of_lead {b : UInt8} {l : Lead} (h : lead? b = some l) : ¬ b < 0x80 := by
  rw [UInt8.lt_iff_toNat_lt, show (0x80 : UInt8).toNat = 0x80 from rfl]
  obtain ⟨-, hb, -⟩ | ⟨-, hb, -⟩ | ⟨-, hb, -⟩ := lead?_forms h <;> omega

/-- Bytes that spell a character are cut off as that character. -/
theorem chunks_append {bs : Bytes} {c : Char} (h : Spells bs c) (rest : Bytes) :
    chunks (bs ++ rest) = .char c :: chunks rest := by
  cases h with
  | one plain => rw [List.singleton_append, chunks, if_pos plain]
  | more lead length whole =>
    have htaken := continuation_append_rest rest length whole
    rw [List.cons_append, chunks, if_neg (not_plain_of_lead lead)]
    simp only [lead, htaken, length, ↓reduceIte]

/-- **What is cut off a byte string**: bytes that spell the character which
comes first, or a broken part. -/
theorem chunks_cons (b : UInt8) (bs : Bytes) :
    ∃ front rest, b :: bs = front ++ rest ∧ front ≠ [] ∧
      ((∃ c, Spells front c ∧ chunks (b :: bs) = .char c :: chunks rest) ∨
        chunks (b :: bs) = .broken front :: chunks rest) := by
  by_cases hb : b < 0x80
  · refine ⟨[b], bs, rfl, List.cons_ne_nil _ _, .inl ⟨_, .one hb, ?_⟩⟩
    rw [chunks, if_pos hb]
  · cases hl : lead? b with
    | none =>
      refine ⟨[b], bs, rfl, List.cons_ne_nil _ _, .inr ?_⟩
      rw [chunks, if_neg hb]
      simp only [hl]
    | some l =>
      refine ⟨b :: (continuation l.more l.low l.high bs).1,
        (continuation l.more l.low l.high bs).2, ?_, List.cons_ne_nil _ _, ?_⟩
      · rw [List.cons_append, continuation_append]
      rw [chunks, if_neg hb]
      simp only [hl]
      split
      · next hn => exact .inl ⟨_, .more hl hn (continuation_of_taken hn), rfl⟩
      · exact .inr rfl

/-! ### Encodings -/

theorem toNat_ofNat {n : Nat} (h : n.isValidChar) : (Char.ofNat n).val.toNat = n := by
  unfold Char.ofNat
  rw [dif_pos h]
  rfl

/-- Two bytes that spell a character are its encoding. -/
theorem encode_of_two {b c : UInt8} {l : Lead} (lead : lead? b = some l) (hm : l.more = 1)
    (whole : continuation 1 l.low l.high [c] = ([c], [])) :
    String.utf8EncodeChar (Char.ofNat (codePoint l.bits [c])) = [b, c] := by
  obtain ⟨-, hb, hb', hbits, hlow, hhigh⟩ | ⟨h, -⟩ | ⟨h, -⟩ := lead?_forms lead
  case inr.inl | inr.inr => omega
  obtain ⟨⟨hc, hc'⟩, -⟩ := continuation_cons_eq.mp whole
  have hn : codePoint l.bits [c] = (b.toNat - 0xC0) * 64 + (c.toNat - 0x80) := by
    rw [hbits]; rfl
  have hv := toNat_ofNat (n := codePoint l.bits [c]) (.inl (by omega))
  have h₁ : codePoint l.bits [c] / 64 = b.toNat - 0xC0 := by omega
  have h₀ : codePoint l.bits [c] % 64 = c.toNat - 0x80 := by omega
  simp only [String.utf8EncodeChar, hv]
  rw [if_neg (by omega), if_pos (by omega)]
  simp only [List.cons.injEq, ← UInt8.toNat_inj, UInt8.toNat_ofNat', and_true, h₁, h₀]
  omega

/-- Three bytes that spell a character are its encoding: the range of the second
byte keeps the code point above the shorter forms and off the surrogates. -/
theorem encode_of_three {b c d : UInt8} {l : Lead} (lead : lead? b = some l) (hm : l.more = 2)
    (whole : continuation 2 l.low l.high [c, d] = ([c, d], [])) :
    String.utf8EncodeChar (Char.ofNat (codePoint l.bits [c, d])) = [b, c, d] := by
  obtain ⟨h, -⟩ | ⟨-, hb, hb', hbits, hlow, hhigh⟩ | ⟨h, -⟩ := lead?_forms lead
  case inl | inr.inr => omega
  obtain ⟨⟨hc, hc'⟩, whole⟩ := continuation_cons_eq.mp whole
  obtain ⟨⟨hd, hd'⟩, -⟩ := continuation_cons_eq.mp whole
  simp only [UInt8.reduceToNat] at hd hd'
  have hn : codePoint l.bits [c, d] =
      ((b.toNat - 0xE0) * 64 + (c.toNat - 0x80)) * 64 + (d.toNat - 0x80) := by
    rw [hbits]; rfl
  have hc₂ : 0x80 ≤ c.toNat ∧ c.toNat ≤ 0xBF := by grind
  have hlong : 0x7FF < codePoint l.bits [c, d] := by grind
  have hscalar : codePoint l.bits [c, d] < 0xD800 ∨
      0xDFFF < codePoint l.bits [c, d] ∧ codePoint l.bits [c, d] < 0x110000 := by grind
  have hv := toNat_ofNat hscalar
  have h₂ : codePoint l.bits [c, d] / 4096 = b.toNat - 0xE0 := by omega
  have h₁ : codePoint l.bits [c, d] / 64 % 64 = c.toNat - 0x80 := by omega
  have h₀ : codePoint l.bits [c, d] % 64 = d.toNat - 0x80 := by omega
  simp only [String.utf8EncodeChar, hv]
  rw [if_neg (by omega), if_neg (by omega), if_pos (by omega)]
  simp only [List.cons.injEq, ← UInt8.toNat_inj, UInt8.toNat_ofNat', and_true, h₂, h₁, h₀]
  omega

/-- Four bytes that spell a character are its encoding: the range of the second
byte keeps the code point between the shorter forms and the last one. -/
theorem encode_of_four {b c d e : UInt8} {l : Lead} (lead : lead? b = some l)
    (hm : l.more = 3) (whole : continuation 3 l.low l.high [c, d, e] = ([c, d, e], [])) :
    String.utf8EncodeChar (Char.ofNat (codePoint l.bits [c, d, e])) = [b, c, d, e] := by
  obtain ⟨h, -⟩ | ⟨h, -⟩ | ⟨-, hb, hb', hbits, hlow, hhigh⟩ := lead?_forms lead
  case inl | inr.inl => omega
  obtain ⟨⟨hc, hc'⟩, whole⟩ := continuation_cons_eq.mp whole
  obtain ⟨⟨hd, hd'⟩, whole⟩ := continuation_cons_eq.mp whole
  obtain ⟨⟨he, he'⟩, -⟩ := continuation_cons_eq.mp whole
  simp only [UInt8.reduceToNat] at hd hd' he he'
  have hn : codePoint l.bits [c, d, e] =
      (((b.toNat - 0xF0) * 64 + (c.toNat - 0x80)) * 64 + (d.toNat - 0x80)) * 64 +
        (e.toNat - 0x80) := by
    rw [hbits]; rfl
  have hc₂ : 0x80 ≤ c.toNat ∧ c.toNat ≤ 0xBF := by grind
  have hlong : 0xFFFF < codePoint l.bits [c, d, e] := by grind
  have hscalar : codePoint l.bits [c, d, e] < 0x110000 := by grind
  have hv := toNat_ofNat (n := codePoint l.bits [c, d, e]) (.inr ⟨by omega, hscalar⟩)
  have h₃ : codePoint l.bits [c, d, e] / 262144 = b.toNat - 0xF0 := by omega
  have h₂ : codePoint l.bits [c, d, e] / 4096 % 64 = c.toNat - 0x80 := by omega
  have h₁ : codePoint l.bits [c, d, e] / 64 % 64 = d.toNat - 0x80 := by omega
  have h₀ : codePoint l.bits [c, d, e] % 64 = e.toNat - 0x80 := by omega
  simp only [String.utf8EncodeChar, hv]
  rw [if_neg (by omega), if_neg (by omega), if_neg (by omega)]
  simp only [List.cons.injEq, ← UInt8.toNat_inj, UInt8.toNat_ofNat', and_true, h₃, h₂, h₁, h₀]
  omega

/-- Bytes that spell a character are its encoding. -/
theorem Spells.encode {bs : Bytes} {c : Char} (h : Spells bs c) :
    String.utf8EncodeChar c = bs := by
  cases h with
  | @one b plain =>
    rw [UInt8.lt_iff_toNat_lt, show (0x80 : UInt8).toNat = 0x80 from rfl] at plain
    have hc : (Char.ofNat b.toNat).val.toNat = b.toNat := toNat_ofNat (.inl (by omega))
    simp only [String.utf8EncodeChar, hc]
    rw [if_pos (by omega), UInt8.ofNat_toNat]
  | @more b l tail lead length whole =>
    obtain ⟨hm, -⟩ | ⟨hm, -⟩ | ⟨hm, -⟩ := lead?_forms lead <;> rw [hm] at length whole
    · obtain ⟨c, rfl⟩ := List.length_eq_one_iff.mp length
      exact encode_of_two lead hm whole
    · obtain ⟨c, d, rfl⟩ := List.length_eq_two.mp length
      exact encode_of_three lead hm whole
    · obtain ⟨c, d, e, rfl⟩ := List.length_eq_three.mp length
      exact encode_of_four lead hm whole

/-- A byte that is written for a number. -/
theorem exists_byte {n : Nat} (h : n < 256) : ∃ b : UInt8, UInt8.ofNat n = b ∧ b.toNat = n :=
  ⟨_, rfl, by rw [UInt8.toNat_ofNat']; omega⟩

theorem spells_of_lead {b : UInt8} {l : Lead} {tail : Bytes} {v : Nat}
    (lead : lead? b = some l) (length : tail.length = l.more)
    (whole : continuation l.more l.low l.high tail = (tail, []))
    (hv : codePoint l.bits tail = v) : Spells (b :: tail) (Char.ofNat v) :=
  hv ▸ .more lead length whole

/-- The encoding of a character spells it. -/
theorem spells_encode (c : Char) : Spells (String.utf8EncodeChar c) c := by
  have hvalid : c.val.toNat < 0xD800 ∨ 0xDFFF < c.val.toNat ∧ c.val.toNat < 0x110000 := c.valid
  have hself : Char.ofNat c.val.toNat = c := Char.ofNat_toNat c
  simp only [String.utf8EncodeChar]
  generalize c.val.toNat = v at hvalid hself ⊢
  subst hself
  -- The number of bytes decides which form the first one has.
  split_ifs with h₁ h₂ h₃
  · obtain ⟨b, hb, rfl⟩ := exists_byte (n := v) (by omega)
    rw [hb]
    exact .one (by rw [UInt8.lt_iff_toNat_lt]; show b.toNat < 128; omega)
  · obtain ⟨b, hb, hbv⟩ := exists_byte (n := v / 64 % 0x20 + 0xC0) (by omega)
    obtain ⟨c, hc, hcv⟩ := exists_byte (n := v % 64 + 0x80) (by omega)
    rw [hb, hc]
    obtain ⟨l, hl⟩ := lead?_of_range (b := b) (by omega) (by omega)
    obtain ⟨hm, -, -, hbits, hlow, hhigh⟩ | ⟨-, h, -⟩ | ⟨-, h, -⟩ := lead?_forms hl
    case inr.inl | inr.inr => omega
    refine spells_of_lead hl hm.symm ?_ ?_
    · rw [hm]
      exact continuation_cons_eq.mpr ⟨by omega, rfl⟩
    · simp only [codePoint, List.foldl, hbits]
      omega
  · obtain ⟨b, hb, hbv⟩ := exists_byte (n := v / 4096 % 0x10 + 0xE0) (by omega)
    obtain ⟨c, hc, hcv⟩ := exists_byte (n := v / 64 % 64 + 0x80) (by omega)
    obtain ⟨d, hd, hdv⟩ := exists_byte (n := v % 64 + 0x80) (by omega)
    rw [hb, hc, hd]
    obtain ⟨l, hl⟩ := lead?_of_range (b := b) (by omega) (by omega)
    obtain ⟨-, -, h, -⟩ | ⟨hm, -, -, hbits, hlow, hhigh⟩ | ⟨-, h, -⟩ := lead?_forms hl
    case inl | inr.inr => omega
    have hlow' : l.low.toNat ≤ c.toNat := by split at hlow <;> omega
    have hhigh' : c.toNat ≤ l.high.toNat := by split at hhigh <;> omega
    refine spells_of_lead hl hm.symm ?_ ?_
    · rw [hm]
      refine continuation_cons_eq.mpr ⟨⟨hlow', hhigh'⟩, continuation_cons_eq.mpr ⟨?_, rfl⟩⟩
      simp only [UInt8.reduceToNat]
      omega
    · simp only [codePoint, List.foldl, hbits]
      omega
  · obtain ⟨b, hb, hbv⟩ := exists_byte (n := v / 262144 % 8 + 0xF0) (by omega)
    obtain ⟨c, hc, hcv⟩ := exists_byte (n := v / 4096 % 64 + 0x80) (by omega)
    obtain ⟨d, hd, hdv⟩ := exists_byte (n := v / 64 % 64 + 0x80) (by omega)
    obtain ⟨e, he, hev⟩ := exists_byte (n := v % 64 + 0x80) (by omega)
    rw [hb, hc, hd, he]
    obtain ⟨l, hl⟩ := lead?_of_range (b := b) (by omega) (by omega)
    obtain ⟨-, -, h, -⟩ | ⟨-, -, h, -⟩ | ⟨hm, -, -, hbits, hlow, hhigh⟩ := lead?_forms hl
    case inl | inr.inl => omega
    have hlow' : l.low.toNat ≤ c.toNat := by split at hlow <;> omega
    have hhigh' : c.toNat ≤ l.high.toNat := by split at hhigh <;> omega
    refine spells_of_lead hl hm.symm ?_ ?_
    · rw [hm]
      refine continuation_cons_eq.mpr ⟨⟨hlow', hhigh'⟩, continuation_cons_eq.mpr
        ⟨?_, continuation_cons_eq.mpr ⟨?_, rfl⟩⟩⟩
      all_goals
        simp only [UInt8.reduceToNat]
        omega
    · simp only [codePoint, List.foldl, hbits]
      omega

/-! ### Reading and writing -/

/-- The bytes that a chunk was cut from. -/
def Chunk.bytes : Chunk → Bytes
  | .char c => String.utf8EncodeChar c
  | .broken bytes => bytes

/-- **Chunks lose nothing.** -/
theorem flatMap_chunks (bs : Bytes) : (chunks bs).flatMap Chunk.bytes = bs := by
  induction hn : bs.length using Nat.strongRecOn generalizing bs with
  | _ n ih =>
    cases bs with
    | nil => rw [chunks]; rfl
    | cons b bs =>
      obtain ⟨front, rest, happ, hne, hcut⟩ := chunks_cons b bs
      have hshort : rest.length < n := by
        have := congrArg List.length happ
        have := List.length_pos_iff.mpr hne
        simp only [List.length_append] at *
        omega
      have hrest := ih rest.length hshort rest rfl
      obtain ⟨c, hc, hcut⟩ | hcut := hcut
      · rw [hcut, List.flatMap_cons, hrest, happ, Chunk.bytes, hc.encode]
      · rw [hcut, List.flatMap_cons, hrest, happ, Chunk.bytes]

/-- **The chunks of an encoded text are its characters.** -/
theorem chunks_encode (cs : List Char) : chunks (encode cs) = cs.map .char := by
  induction cs with
  | nil => rw [encode, List.flatMap_nil, chunks, List.map_nil]
  | cons c cs ih =>
    have hcons : encode (c :: cs) = String.utf8EncodeChar c ++ encode cs := List.flatMap_cons
    rw [hcons, chunks_append (spells_encode c), ih, List.map_cons]

/-- An encoded text reads back. -/
theorem decode?_encode (cs : List Char) : decode? (encode cs) = some cs := by
  rw [decode?, chunks_encode]
  induction cs with
  | nil => rfl
  | cons c cs ih =>
    simp only [List.map_cons, List.mapM_cons, ih, Option.pure_def, Option.bind_eq_bind,
      Option.bind_some]

/-- Bytes that read as a text are cut into its characters. -/
theorem chunks_of_decode? {bs : Bytes} {cs : List Char} (h : decode? bs = some cs) :
    chunks bs = cs.map .char := by
  rw [decode?] at h
  generalize chunks bs = ks at h ⊢
  induction ks generalizing cs with
  | nil =>
    cases h
    rfl
  | cons k ks ih =>
    rw [List.mapM_cons] at h
    cases k with
    | broken part => simp at h
    | char c =>
      simp only [Option.pure_def, Option.bind_eq_bind, Option.bind_some] at h
      obtain ⟨cs', hrest, hcs⟩ := Option.bind_eq_some_iff.mp h
      cases hcs
      rw [ih hrest, List.map_cons]

/-- **What is read as text**: the bytes that encode it, and no others. -/
theorem decode?_eq_some {bs : Bytes} {cs : List Char} :
    decode? bs = some cs ↔ bs = encode cs := by
  constructor
  · intro h
    rw [← flatMap_chunks bs, chunks_of_decode? h, List.flatMap_map]
    rfl
  · rintro rfl
    exact decode?_encode cs

/-- Bytes that encode no text are not read. -/
theorem decode?_eq_none {bs : Bytes} : decode? bs = none ↔ ∀ cs, bs ≠ encode cs := by
  simp only [← decode?_eq_some, Ne, Option.eq_none_iff_forall_ne_some]

/-! ### Control bytes -/

/-- A character at or above U+0020 has no byte below `20`. -/
theorem le_of_mem_encodeChar {c : Char} (hc : 0x20 ≤ c.toNat) {b : UInt8}
    (hb : b ∈ String.utf8EncodeChar c) : 0x20 ≤ b := by
  have hv : 0x20 ≤ c.val.toNat := hc
  have hvalid : c.val.toNat < 0xD800 ∨ 0xDFFF < c.val.toNat ∧ c.val.toNat < 0x110000 := c.valid
  rw [UInt8.le_iff_toNat_le, show (0x20 : UInt8).toNat = 0x20 from rfl]
  simp only [String.utf8EncodeChar] at hb
  split_ifs at hb <;> simp only [List.mem_cons, List.not_mem_nil, or_false] at hb
  · rw [hb, UInt8.toNat_ofNat']
    omega
  all_goals
    rcases hb with rfl | rfl | rfl | rfl
    all_goals
      rw [UInt8.toNat_ofNat']
      omega

/-- No text of characters at or above U+0020 has a byte below `20`. -/
theorem le_of_mem_encode {cs : List Char} (hcs : ∀ c ∈ cs, 0x20 ≤ c.toNat) {b : UInt8}
    (hb : b ∈ encode cs) : 0x20 ≤ b := by
  obtain ⟨c, hc, hb⟩ := List.mem_flatMap.mp hb
  exact le_of_mem_encodeChar (hcs c hc) hb

/-! ### Plain bytes -/

/-- A continuation takes no plain byte. -/
theorem le_of_mem_continuation {n : Nat} {low high : UInt8} {bs : Bytes} (hlow : 0x80 ≤ low) :
    ∀ b ∈ (continuation n low high bs).1, 0x80 ≤ b := by
  induction n generalizing low high bs with
  | zero => simp [continuation]
  | succ n ih =>
    cases bs with
    | nil => simp [continuation]
    | cons b bs =>
      simp only [continuation]
      split
      · next hb =>
        exact List.forall_mem_cons.mpr ⟨UInt8.le_trans hlow hb.1, ih (by decide)⟩
      · simp

/-- No plain byte may follow a first byte that promises more. -/
theorem low_of_lead {b : UInt8} {l : Lead} (h : lead? b = some l) : 0x80 ≤ l.low := by
  rw [UInt8.le_iff_toNat_le, show (0x80 : UInt8).toNat = 0x80 from rfl]
  rcases lead?_forms h with ⟨-, -, -, -, hlow, -⟩ | ⟨-, -, -, -, hlow, -⟩ | ⟨-, -, -, -, hlow, -⟩
  · omega
  · split at hlow <;> omega
  · split at hlow <;> omega

/-- No plain byte is in a broken part. -/
theorem le_of_mem_broken {bs part : Bytes} (h : .broken part ∈ chunks bs) :
    ∀ b ∈ part, 0x80 ≤ b := by
  fun_induction chunks bs with
  | case1 => exact absurd h List.not_mem_nil
  | case2 b bs hb ih => exact ih (by simpa using h)
  | case3 b bs hb hl ih =>
    rcases List.mem_cons.mp h with heq | h
    · obtain rfl := Chunk.broken.inj heq
      simpa using hb
    · exact ih h
  | case4 b bs hb l hl tail ih =>
    rcases List.mem_cons.mp h with heq | h
    · split at heq
      · exact absurd heq (by simp)
      · obtain rfl := Chunk.broken.inj heq
        exact List.forall_mem_cons.mpr
          ⟨UInt8.not_lt.mp hb, le_of_mem_continuation (low_of_lead hl)⟩
    · exact ih h

/-- A plain byte is the character of its number, and in the bytes of no other. -/
theorem Spells.count {bs : Bytes} {c : Char} (h : Spells bs c) {b : UInt8} (hb : b < 0x80) :
    bs.count b = [c].count (Char.ofNat b.toNat) := by
  have hself : String.utf8EncodeChar (Char.ofNat b.toNat) = [b] := (Spells.one hb).encode
  cases h with
  | @one b' plain =>
    have heq : Char.ofNat b'.toNat = Char.ofNat b.toNat ↔ b' = b := by
      refine ⟨fun heq => ?_, fun heq => by rw [heq]⟩
      rw [← heq, (Spells.one plain).encode] at hself
      exact (List.cons.inj hself).1
    simp only [List.count_singleton, beq_iff_eq, heq]
  | @more b' l tail lead length whole =>
    have hmore : Spells (b' :: tail) (Char.ofNat (codePoint l.bits tail)) :=
      .more lead length whole
    have hfirst : b' ≠ b := by
      rintro rfl
      exact not_plain_of_lead lead hb
    have hother : Char.ofNat (codePoint l.bits tail) ≠ Char.ofNat b.toNat := by
      intro heq
      rw [← heq, hmore.encode] at hself
      exact hfirst (List.cons.inj hself).1
    have htail : b ∉ tail := by
      intro hmem
      have hle := le_of_mem_continuation (low_of_lead lead) b (by rw [whole]; exact hmem)
      exact absurd hb (UInt8.not_lt.mpr hle)
    rw [List.count_eq_zero.mpr (by simpa using ⟨hfirst.symm, htail⟩),
      List.count_eq_zero.mpr (by simpa using hother.symm)]

/-- **Lossy reading keeps plain bytes**, each as the character of its number, and makes no
others. -/
theorem count_lossyChars (bs : Bytes) {b : UInt8} (hb : b < 0x80) :
    (lossyChars bs).count (Char.ofNat b.toNat) = bs.count b := by
  have hmark : '\uFFFD' ≠ Char.ofNat b.toNat := by
    intro heq
    have hencode : String.utf8EncodeChar '\uFFFD' = [b] := heq ▸ (Spells.one hb).encode
    exact absurd (congrArg List.length hencode) (by simp [String.utf8EncodeChar])
  have hbroken : ∀ part, .broken part ∈ chunks bs → b ∉ part := fun part hpart hmem =>
    absurd hb (UInt8.not_lt.mpr (le_of_mem_broken hpart b hmem))
  conv_rhs => rw [← flatMap_chunks bs]
  unfold lossyChars
  generalize chunks bs = ks at hbroken ⊢
  induction ks with
  | nil => rfl
  | cons k ks ih =>
    have hks := ih fun part hpart => hbroken part (List.mem_cons_of_mem k hpart)
    rw [List.map_cons, List.flatMap_cons, List.count_append, ← hks, ← List.singleton_append,
      List.count_append]
    congr 1
    cases k with
    | char c => exact ((spells_encode c).count hb).symm
    | broken part =>
      rw [List.count_eq_zero.mpr (by simpa using hmark.symm)]
      exact (List.count_eq_zero.mpr (hbroken part List.mem_cons_self)).symm

end ChangeWatch.Utf8
