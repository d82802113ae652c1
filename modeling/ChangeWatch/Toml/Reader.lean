import ChangeWatch.Toml.Scalar
import ChangeWatch.Toml.Table

/-!
# Reading a TOML document

`document?` yields the fields of a well-formed document, in file order, and
nothing for any other text.  A document is read line by line into pairs and
headers, which `Toml.Table` then puts together.

Values nest at most `depthLimit` deep, and a dotted key has fewer parts than
that.  The depth left is what the readers of nested values recurse on; those
that read a list of things take as many rounds as there are characters.
-/

namespace ChangeWatch.Toml

/-- The depth from which on values and keys are refused. -/
def depthLimit : Nat := 80

/-- Drops the blanks of a line. -/
def dropBlanks (cs : List Char) : List Char :=
  cs.dropWhile isBlank

/-- What follows a line break, when one comes next. -/
def lineBreak? : List Char → Option (List Char)
  | '\n' :: rest => some rest
  | '\r' :: '\n' :: rest => some rest
  | _ => none

/-- Drops a comment, when one comes next. -/
def dropComment : List Char → List Char
  | '#' :: rest => rest.dropWhile isPlain
  | cs => cs

/-- What follows the end of a line: blanks, a comment, and a line break or the
end of the text. -/
def lineEnd? (cs : List Char) : Option (List Char) :=
  match dropComment (dropBlanks cs) with
  | [] => some []
  | rest => lineBreak? rest

/-- Whether a character may stand in a bare key. -/
def isBareChar (c : Char) : Bool :=
  ('a' ≤ c && c ≤ 'z') || ('A' ≤ c && c ≤ 'Z') || ('0' ≤ c && c ≤ '9') || c = '-' || c = '_'

def keyPart? : List Char → Option (Name × List Char)
  -- a quoted part may hold anything, points and blanks included
  | '"' :: rest => basicString rest
  | '\'' :: rest => literalString rest
  | cs =>
    match cs.takeWhile isBareChar with
    | [] => none
    | bare => some (bare, cs.drop bare.length)

/-- The parts of a key, parted by points, blanks around each. -/
def keyParts? : Nat → List Char → Option (List Name × List Char)
  | 0, _ => none
  | rounds + 1, cs => do
    let (part, cs) ← keyPart? (dropBlanks cs)
    match dropBlanks cs with
    | '.' :: cs =>
      let (parts, cs) ← keyParts? rounds cs
      some (part :: parts, cs)
    | cs => some ([part], cs)

/-- A key with fewer parts than the limit. -/
def key? (cs : List Char) : Option (List Name × List Char) :=
  (keyParts? (cs.length + 1) cs).bind fun found =>
    if found.1.length < depthLimit then some found else none

/-- Drops blanks, line breaks and comments between the items of an array. -/
def dropSpace : Nat → List Char → List Char
  | 0, cs => cs
  | rounds + 1, cs =>
    let cs := dropBlanks cs
    match lineBreak? (dropComment cs) with
    | some rest => dropSpace rounds rest
    | none => cs

/-- The items of an array, from behind a bracket or a comma on. -/
def items? (item : List Char → Option (Value × List Char)) :
    Nat → List Char → Option (List Value × List Char)
  | 0, _ => none
  | rounds + 1, cs =>
    let space := cs.length + 1
    match dropSpace space cs with
    | ']' :: rest => some ([], rest)
    | cs => do
      let (v, cs) ← item cs
      match dropSpace space cs with
      | ',' :: cs =>
        let (vs, cs) ← items? item rounds cs
        some (v :: vs, cs)
      | ']' :: cs => some ([v], cs)
      | _ => none

/-- A key, an equals sign and a value. -/
def pair? (item : List Char → Option (Value × List Char)) (cs : List Char) :
    Option ((List Name × Value) × List Char) := do
  let (key, cs) ← key? cs
  let cs ← after? '=' cs
  let (v, cs) ← item (dropBlanks cs)
  some ((key, v), cs)

/-- The pairs of an inline table, at least one, up to the closing brace. -/
def pairs? (item : List Char → Option (Value × List Char)) :
    Nat → List Char → Option (List (List Name × Value) × List Char)
  | 0, _ => none
  | rounds + 1, cs => do
    let (p, cs) ← pair? item cs
    match dropBlanks cs with
    | ',' :: cs =>
      let (ps, cs) ← pairs? item rounds cs
      some (p :: ps, cs)
    | '\x7d' :: cs => some ([p], cs)
    | _ => none

/-- An array or an inline table, from behind its opening bracket or brace on. -/
def compound? (item : List Char → Option (Value × List Char)) (opening : Char)
    (cs : List Char) : Option (Value × List Char) :=
  if opening = '[' then
    (items? item (cs.length + 1) cs).map fun (vs, rest) => (.array vs, rest)
  else
    match dropBlanks cs with
    | '\x7d' :: rest => some (.table .inline [], rest)
    | _ => do
      let (ps, rest) ← pairs? item (cs.length + 1) cs
      let fields ← Fields.assignAll [] ps
      some (.table .inline fields, rest)

/-- A value that is neither an array nor an inline table. -/
def flat? (cs : List Char) : Option (Value × List Char) :=
  match cs with
  | '"' :: _ | '\'' :: _ => (string? cs).map fun (text, rest) => (.string text, rest)
  | _ => scalar cs

/-- A value that nests at most so deep. -/
def value? : Nat → List Char → Option (Value × List Char)
  | 0, cs => flat? cs
  | depth + 1, cs =>
    match cs with
    | '[' :: rest => compound? (value? depth) '[' rest
    | '\x7b' :: rest => compound? (value? depth) '\x7b' rest
    | _ => flat? cs

/-- A pair at the top of a document or below a header. -/
def topPair? (cs : List Char) : Option ((List Name × Value) × List Char) :=
  pair? (value? (depthLimit - 1)) cs

inductive Line where
  | pair (key : List Name) (v : Value)
  | header (listed : Bool) (path : List Name)

/-- A header, from its first bracket on. -/
def header? : List Char → Option (Line × List Char)
  | '[' :: '[' :: rest => do
    let (path, rest) ← key? rest
    let rest ← after? ']' rest
    let rest ← after? ']' rest
    some (.header true path, rest)
  | '[' :: rest => do
    let (path, rest) ← key? rest
    let rest ← after? ']' rest
    some (.header false path, rest)
  | _ => none

/-- The lines of a document that say something. -/
def lines? : Nat → List Char → Option (List Line)
  | 0, _ => none
  | rounds + 1, cs =>
    match dropBlanks cs with
    | [] => some []
    | c :: rest =>
      if c = '#' ∨ c = '\n' ∨ c = '\r' then
        (lineEnd? (c :: rest)).bind (lines? rounds)
      else if c = '[' then do
        let (line, rest) ← header? (c :: rest)
        let rest ← lineEnd? rest
        (line :: ·) <$> lines? rounds rest
      else do
        let ((key, v), rest) ← topPair? (c :: rest)
        let rest ← lineEnd? rest
        (.pair key v :: ·) <$> lines? rounds rest

/-- The pairs above the first header, and the sections. -/
def sections (lines : List Line) : List (List Name × Value) × List Section :=
  lines.foldr
    (fun line (pairs, rest) =>
      match line with
      | .pair key v => ((key, v) :: pairs, rest)
      | .header listed path => ([], ⟨listed, path, pairs⟩ :: rest))
    ([], [])

/-- Drops a byte order mark at the front of a text. -/
def dropMark : List Char → List Char
  | '\uFEFF' :: rest => rest
  | cs => cs

/-- The fields of a well-formed document; `none` for any other text. -/
def document? (text : List Char) : Option Fields := do
  let cs := dropMark text
  let (pairs, rest) := sections (← lines? (cs.length + 1) cs)
  let fields ← Fields.assignAll [] pairs
  rest.foldlM Fields.addSection fields

end ChangeWatch.Toml
