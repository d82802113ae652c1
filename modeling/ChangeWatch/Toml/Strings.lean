import ChangeWatch.Toml.Value

/-!
# The four written forms of a TOML string

Every reader is given the characters after the opening quotes and yields the
string together with what follows the closing ones.  Control characters stand
in no string, save the tab, and line breaks only in the long forms, where a
carriage return counts only before a line feed and is dropped with it.

In a long form a run of quotes closes the string from the third one on; up to
two quotes before the closing three belong to the string.
-/

namespace ChangeWatch.Toml

/-- Whether a character is a blank within a line. -/
def isBlank (c : Char) : Bool :=
  c = ' ' || c = '\t'

/-- Whether a character may stand in a comment or a string: anything but the
control characters, of which only the tab may. -/
def isPlain (c : Char) : Bool :=
  c = '\t' || (0x20 ≤ c.toNat && c.toNat ≠ 0x7F)

def hexValue? (c : Char) : Option Nat :=
  if '0' ≤ c ∧ c ≤ '9' then some (c.toNat - 48)
  else if 'a' ≤ c ∧ c ≤ 'f' then some (c.toNat - 87)
  else if 'A' ≤ c ∧ c ≤ 'F' then some (c.toNat - 55)
  else none

/-- The number written by digits in base sixteen. -/
def hexNumber? (digits : List Char) : Option Nat :=
  digits.foldlM (fun n c => (hexValue? c).map (16 * n + ·)) 0

/-- The character of a code point, surrogates and numbers beyond the last code
point excluded. -/
def scalar? (n : Nat) : Option Char :=
  if n < 0xD800 ∨ (0xDFFF < n ∧ n < 0x110000) then some (Char.ofNat n) else none

/-- What a letter behind a backslash stands for. -/
def escapeLetter? : Char → Option Char
  | 'b' => some '\x08'
  | 't' => some '\t'
  | 'n' => some '\n'
  | 'f' => some '\x0c'
  | 'r' => some '\r'
  | '"' => some '"'
  | '\\' => some '\\'
  | _ => none

/-- Puts a character before what was read. -/
def push (c : Char) (read : List Char × List Char) : List Char × List Char :=
  (c :: read.1, read.2)

/-- A string in double quotes. -/
def basicString : List Char → Option (List Char × List Char)
  | [] => none
  | '"' :: rest => some ([], rest)
  | '\\' :: 'u' :: a :: b :: c :: d :: rest => do
    let ch ← (← hexNumber? [a, b, c, d]) |> scalar?
    push ch <$> basicString rest
  | '\\' :: 'U' :: a :: b :: c :: d :: e :: f :: g :: h :: rest => do
    let ch ← (← hexNumber? [a, b, c, d, e, f, g, h]) |> scalar?
    push ch <$> basicString rest
  | '\\' :: c :: rest => do
    let ch ← escapeLetter? c
    push ch <$> basicString rest
  | c :: rest => if isPlain c then push c <$> basicString rest else none

/-- A string in single quotes. -/
def literalString : List Char → Option (List Char × List Char)
  | [] => none
  | '\'' :: rest => some ([], rest)
  | c :: rest => if isPlain c then push c <$> literalString rest else none

/-- Whether blanks and then a line break come next. -/
def endsLine (cs : List Char) : Bool :=
  match cs.dropWhile isBlank with
  | '\n' :: _ | '\r' :: '\n' :: _ => true
  | _ => false

/-- The quotes of a closing run beyond the closing three, at most two. -/
def closingRun (quote : Char) : List Char → List Char × List Char
  | a :: b :: rest =>
    if a = quote then
      if b = quote then ([quote, quote], rest) else ([quote], b :: rest)
    else ([], a :: b :: rest)
  | [a] => if a = quote then ([quote], []) else ([], [a])
  | [] => ([], [])

/-- A string in three double quotes.  `skipping` is set behind a backslash that
ends a line, until the next character that is neither blank nor line break. -/
def longBasicString (skipping : Bool) : List Char → Option (List Char × List Char)
  | [] => none
  | '"' :: '"' :: '"' :: rest => some (closingRun '"' rest)
  | '\r' :: '\n' :: rest =>
    if skipping then longBasicString true rest else push '\n' <$> longBasicString false rest
  | '\n' :: rest =>
    if skipping then longBasicString true rest else push '\n' <$> longBasicString false rest
  | '\\' :: 'u' :: a :: b :: c :: d :: rest => do
    let ch ← (← hexNumber? [a, b, c, d]) |> scalar?
    push ch <$> longBasicString false rest
  | '\\' :: 'U' :: a :: b :: c :: d :: e :: f :: g :: h :: rest => do
    let ch ← (← hexNumber? [a, b, c, d, e, f, g, h]) |> scalar?
    push ch <$> longBasicString false rest
  | '\\' :: c :: rest =>
    match escapeLetter? c with
    | some ch => push ch <$> longBasicString false rest
    | none => if endsLine (c :: rest) then longBasicString true (c :: rest) else none
  | c :: rest =>
    if skipping && isBlank c then longBasicString true rest
    else if isPlain c then push c <$> longBasicString false rest
    else none

/-- A string in three single quotes. -/
def longLiteralString : List Char → Option (List Char × List Char)
  | [] => none
  | '\'' :: '\'' :: '\'' :: rest => some (closingRun '\'' rest)
  | '\r' :: '\n' :: rest => push '\n' <$> longLiteralString rest
  | '\n' :: rest => push '\n' <$> longLiteralString rest
  | c :: rest => if isPlain c then push c <$> longLiteralString rest else none

/-- A line break right behind the opening quotes of a long form is dropped. -/
def dropBreak : List Char → List Char
  | '\n' :: rest => rest
  | '\r' :: '\n' :: rest => rest
  | cs => cs

/-- A string in any of the four forms, from its opening quote on. -/
def string? : List Char → Option (List Char × List Char)
  | '"' :: '"' :: '"' :: rest => longBasicString false (dropBreak rest)
  | '"' :: rest => basicString rest
  | '\'' :: '\'' :: '\'' :: rest => longLiteralString (dropBreak rest)
  | '\'' :: rest => literalString rest
  | _ => none

end ChangeWatch.Toml
