import ChangeWatch.Text.Combining
import ChangeWatch.Text.Utf8

/-!
# Quoted renderings

Names and texts quoted in messages are made of visible characters only: a
quote and a backslash are escaped, the four common controls have a letter
each, and every other character that has no printed form or attaches to the
one before is spelled `\u{…}` by its code point.  Bytes that are no text at
all are spelled `\xFF`, so that the rendering of a path loses nothing.

In JSON a string is written between double quotes too, but there only a quote, a
backslash and the control characters below U+0020 are escaped, five of them by a
letter and the others by four digits; every other character stands for itself.
-/

namespace ChangeWatch.Text

/-- A digit below sixteen, with small letters. -/
def hexDigit (n : Nat) : Char :=
  if n < 10 then Char.ofNat (48 + n) else Char.ofNat (87 + n)

/-- A number in base sixteen, without leading zeros. -/
def hex (n : Nat) : List Char :=
  (Nat.toDigits 16 n)

/-- A byte as two digits in base sixteen, with capital letters. -/
def hexByte (b : UInt8) : List Char :=
  [b.toNat / 16, b.toNat % 16].map fun d =>
    if d < 10 then Char.ofNat (48 + d) else Char.ofNat (55 + d)

/-- How one character is written between double quotes. -/
def quotedChar (c : Char) : List Char :=
  match c with
  | '\x00' => ['\\', '0']
  | '\t' => ['\\', 't']
  | '\n' => ['\\', 'n']
  | '\r' => ['\\', 'r']
  | '"' => ['\\', '"']
  | '\\' => ['\\', '\\']
  | c =>
    if isCombining c || !isPrintable c then
      ['\\', 'u', '\x7b'] ++ hex c.toNat ++ ['\x7d']
    else [c]

/-- A text between double quotes. -/
def quoted (cs : List Char) : List Char :=
  '"' :: (cs.flatMap quotedChar ++ ['"'])

/-- A byte string between double quotes, broken parts byte by byte. -/
def quotedBytes (bs : Bytes) : List Char :=
  '"' :: ((Utf8.chunks bs).flatMap fun
    | .char c => quotedChar c
    | .broken part => part.flatMap fun b => '\\' :: 'x' :: hexByte b) ++ ['"']

/-! ### Strings in JSON -/

/-- How one character is written in a JSON string. -/
def jsonChar (c : Char) : List Char :=
  match c with
  | '"' => ['\\', '"']
  | '\\' => ['\\', '\\']
  | '\x08' => ['\\', 'b']
  | '\x0c' => ['\\', 'f']
  | '\n' => ['\\', 'n']
  | '\r' => ['\\', 'r']
  | '\t' => ['\\', 't']
  | c =>
    if c.toNat < 0x20 then
      ['\\', 'u', '0', '0', hexDigit (c.toNat / 16), hexDigit (c.toNat % 16)]
    else [c]

def jsonString (cs : List Char) : List Char :=
  '"' :: (cs.flatMap jsonChar ++ ['"'])

end ChangeWatch.Text
