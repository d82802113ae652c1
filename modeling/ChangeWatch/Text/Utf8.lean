/-!
# UTF-8 over arbitrary bytes

Names on disk are byte strings and need not be text.  `Utf8.chunks` cuts any
byte string into characters and *broken parts*; a broken part is maximal: the
longest prefix of a well-formed character that the next byte does not
continue, or one byte that begins no character.  The three readings used
elsewhere are all read off the chunks:

* `decode?` is the text, if nothing is broken;
* `lossy` writes one replacement character per broken part;
* a quoted rendering (see `Text.Quoted`) spells the broken bytes out.
-/

namespace ChangeWatch

/-- A string of bytes, such as the name of a directory entry. -/
abbrev Bytes := List UInt8

namespace Utf8

/-- A piece of a byte string: one character, or bytes that begin none. -/
inductive Chunk where
  | char (c : Char)
  | broken (bytes : Bytes)
  deriving DecidableEq, Repr

/-- What the first byte of a character promises: how many more bytes follow,
the range of the second one, and the payload bits of the first. -/
structure Lead where
  more : Nat
  low : UInt8
  high : UInt8
  bits : Nat
  deriving DecidableEq, Repr

/-- The promise of a first byte; `none` for a byte that begins no character of
two or more bytes.  The ranges of the second byte exclude overlong forms,
surrogates and everything above the last code point. -/
def lead? (b : UInt8) : Option Lead :=
  if 0xC2 ≤ b ∧ b ≤ 0xDF then some ⟨1, 0x80, 0xBF, b.toNat - 0xC0⟩
  else if b = 0xE0 then some ⟨2, 0xA0, 0xBF, 0⟩
  else if b = 0xED then some ⟨2, 0x80, 0x9F, 0xD⟩
  else if 0xE1 ≤ b ∧ b ≤ 0xEF then some ⟨2, 0x80, 0xBF, b.toNat - 0xE0⟩
  else if b = 0xF0 then some ⟨3, 0x90, 0xBF, 0⟩
  else if 0xF1 ≤ b ∧ b ≤ 0xF3 then some ⟨3, 0x80, 0xBF, b.toNat - 0xF0⟩
  else if b = 0xF4 then some ⟨3, 0x80, 0x8F, 4⟩
  else none

/-- Up to `n` continuation bytes from the front, the first one between `low`
and `high`, the others anywhere in `80 … BF`; with the bytes left over. -/
def continuation : Nat → UInt8 → UInt8 → Bytes → Bytes × Bytes
  | 0, _, _, bs => ([], bs)
  | _ + 1, _, _, [] => ([], [])
  | n + 1, low, high, b :: bs =>
    if low ≤ b ∧ b ≤ high then
      let (taken, rest) := continuation n 0x80 0xBF bs
      (b :: taken, rest)
    else ([], b :: bs)

/-- The continuation and what it leaves are the input again. -/
theorem continuation_append (n : Nat) (low high : UInt8) (bs : Bytes) :
    (continuation n low high bs).1 ++ (continuation n low high bs).2 = bs := by
  induction n generalizing low high bs with
  | zero => rfl
  | succ n ih =>
    cases bs with
    | nil => rfl
    | cons b bs =>
      simp only [continuation]
      split
      · simp [ih]
      · rfl

theorem length_continuation_le (n : Nat) (low high : UInt8) (bs : Bytes) :
    (continuation n low high bs).2.length ≤ bs.length := by
  have h := congrArg List.length (continuation_append n low high bs)
  simp only [List.length_append] at h
  omega

/-- The code point spelled by the payload of a first byte and its
continuation bytes, six bits each. -/
def codePoint (bits : Nat) (tail : Bytes) : Nat :=
  tail.foldl (fun v b => v * 64 + (b.toNat - 0x80)) bits

/-- A byte string as characters and maximal broken parts, in order. -/
def chunks : Bytes → List Chunk
  | [] => []
  | b :: bs =>
    if b < 0x80 then .char (Char.ofNat b.toNat) :: chunks bs
    else
      match lead? b with
      | none => .broken [b] :: chunks bs
      | some l =>
        let tail := (continuation l.more l.low l.high bs).1
        (if tail.length = l.more then .char (Char.ofNat (codePoint l.bits tail))
          else .broken (b :: tail)) :: chunks (continuation l.more l.low l.high bs).2
termination_by bs => bs.length
decreasing_by
  all_goals simp only [List.length_cons]
  · omega
  · omega
  · have := length_continuation_le l.more l.low l.high bs
    omega

/-- The text that the bytes spell, when they are well-formed throughout. -/
def decode? (bs : Bytes) : Option (List Char) :=
  (chunks bs).mapM fun
    | .char c => some c
    | .broken _ => none

/-- The bytes as text, with one U+FFFD for each broken part. -/
def lossyChars (bs : Bytes) : List Char :=
  (chunks bs).map fun
    | .char c => c
    | .broken _ => '\uFFFD'

def lossy (bs : Bytes) : String :=
  String.ofList (lossyChars bs)

def encode (cs : List Char) : Bytes :=
  cs.flatMap String.utf8EncodeChar

def ofString (s : String) : Bytes :=
  encode s.toList

end Utf8

end ChangeWatch
