import ChangeWatch.Event.Context
import ChangeWatch.Proofs.Text.Utf8
import ChangeWatch.Toml.Strings

/-!
# JSON, read back

A reader for all of JSON: values of every form, blanks between the tokens, and
in strings every escape, two halves of a surrogate pair included.  It is what
the text of a change is measured by: `string?_jsonString` says that a string
as `Text.jsonString` writes it is read as the same characters and that the
reader stops right behind it, whatever comes next.

Loops are over the characters that are left; values nest no deeper than there
are characters, so that their number is depth enough.
-/

namespace ChangeWatch

/-- A JSON value; numbers are kept as they are written, members in order. -/
inductive Json where
  | null
  | boolean (b : Bool)
  | number (numeral : List Char)
  | string (text : List Char)
  | array (items : List Json)
  | object (members : List (List Char × Json))
  deriving Repr

namespace Json

/-! ### Strings -/

/-- What a letter behind a backslash stands for. -/
def escapeLetter? : Char → Option Char
  | '"' => some '"'
  | '\\' => some '\\'
  | '/' => some '/'
  | 'b' => some '\x08'
  | 'f' => some '\x0c'
  | 'n' => some '\n'
  | 'r' => some '\r'
  | 't' => some '\t'
  | _ => none

/-- A code unit of four digits, and what follows it. -/
def unit? : List Char → Option (Nat × List Char)
  | a :: b :: c :: d :: rest => (Toml.hexNumber? [a, b, c, d]).map (·, rest)
  | _ => none

/-- The second half of a surrogate pair, an escape of its own. -/
def lowHalf? : List Char → Option (Nat × List Char)
  | '\\' :: 'u' :: cs =>
    (unit? cs).filter fun read => 0xDC00 ≤ read.1 ∧ read.1 ≤ 0xDFFF
  | _ => none

/-- The character of one code unit, or of the pair that it begins. -/
def unicode? (cs : List Char) : Option (Char × List Char) := do
  let (n, rest) ← unit? cs
  if 0xD800 ≤ n ∧ n ≤ 0xDBFF then
    let (m, rest) ← lowHalf? rest
    some (Char.ofNat (0x10000 + (n - 0xD800) * 0x400 + (m - 0xDC00)), rest)
  else (Toml.scalar? n).map (·, rest)

/-- One character of a string, plain or escaped, and what follows it. -/
def character? : List Char → Option (Char × List Char)
  | '\\' :: 'u' :: cs => unicode? cs
  | '\\' :: c :: cs => (escapeLetter? c).map (·, cs)
  | c :: cs => if c ≠ '\\' ∧ 0x20 ≤ c.toNat then some (c, cs) else none
  | [] => none

theorem unit?_length {cs rest : List Char} {n : Nat} (h : unit? cs = some (n, rest)) :
    rest.length < cs.length := by
  match cs, h with
  | a :: b :: c :: d :: cs, h =>
    obtain ⟨_, -, heq⟩ := Option.map_eq_some_iff.mp h
    obtain rfl : cs = rest := congrArg Prod.snd heq
    simp only [List.length_cons]
    omega

theorem lowHalf?_length {cs rest : List Char} {n : Nat} (h : lowHalf? cs = some (n, rest)) :
    rest.length < cs.length := by
  unfold lowHalf? at h
  split at h
  · have := unit?_length (Option.filter_eq_some_iff.mp h).1
    simp only [List.length_cons]
    omega
  · cases h

theorem unicode?_length {cs rest : List Char} {c : Char} (h : unicode? cs = some (c, rest)) :
    rest.length < cs.length := by
  obtain ⟨⟨n, cs'⟩, hunit, h⟩ := Option.bind_eq_some_iff.mp h
  have hless := unit?_length hunit
  dsimp only at h
  split at h
  · obtain ⟨⟨m, cs''⟩, hlow, h⟩ := Option.bind_eq_some_iff.mp h
    have hless' := lowHalf?_length hlow
    obtain rfl : cs'' = rest := congrArg Prod.snd (Option.some.inj h)
    omega
  · obtain ⟨_, -, heq⟩ := Option.map_eq_some_iff.mp h
    obtain rfl : cs' = rest := congrArg Prod.snd heq
    exact hless

/-- Reading a character uses some up. -/
theorem character?_length {cs rest : List Char} {c : Char}
    (h : character? cs = some (c, rest)) : rest.length < cs.length := by
  unfold character? at h
  split at h
  · have := unicode?_length h
    simp only [List.length_cons]
    omega
  · obtain ⟨_, -, heq⟩ := Option.map_eq_some_iff.mp h
    cases heq
    simp only [List.length_cons]
    omega
  · split at h
    · cases h
      exact Nat.lt_succ_self _
    · cases h
  · cases h

/-- The characters of a string, from behind its opening quote, and what follows
the closing one. -/
def string? (cs : List Char) : Option (List Char × List Char) :=
  match cs with
  | '"' :: rest => some ([], rest)
  | cs =>
    match _h : character? cs with
    | none => none
    | some (c, rest) => (string? rest).map (Toml.push c)
termination_by cs.length
decreasing_by exact character?_length _h

/-! ### Numbers -/

/-- One or more digits, and what follows them. -/
def digits? (cs : List Char) : Option (List Char × List Char) :=
  match cs.takeWhile Char.isDigit with
  | [] => none
  | digits => some (digits, cs.dropWhile Char.isDigit)

/-- The digits before the point: a zero stands alone. -/
def whole? : List Char → Option (List Char × List Char)
  | '0' :: cs => some (['0'], cs)
  | cs => digits? cs

/-- A point and the digits behind it, where there is one. -/
def fraction? : List Char → Option (List Char × List Char)
  | '.' :: cs => (digits? cs).map fun read => ('.' :: read.1, read.2)
  | cs => some ([], cs)

/-- An exponent with its sign, where there is one. -/
def exponent? : List Char → Option (List Char × List Char)
  | e :: cs =>
    if e = 'e' ∨ e = 'E' then
      match cs with
      | sign :: ds =>
        if sign = '+' ∨ sign = '-' then
          (digits? ds).map fun read => (e :: sign :: read.1, read.2)
        else (digits? cs).map fun read => (e :: read.1, read.2)
      | [] => none
    else some ([], e :: cs)
  | [] => some ([], [])

/-- A number as it is written, and what follows it. -/
def number? (cs : List Char) : Option (List Char × List Char) := do
  let (sign, cs) := match cs with
    | '-' :: cs => (['-'], cs)
    | cs => ([], cs)
  let (whole, cs) ← whole? cs
  let (fraction, cs) ← fraction? cs
  let (exponent, cs) ← exponent? cs
  some (sign ++ whole ++ fraction ++ exponent, cs)

/-! ### Values -/

def isBlank (c : Char) : Bool :=
  c = ' ' || c = '\t' || c = '\n' || c = '\r'

/-- The text from its next token on. -/
def token (cs : List Char) : List Char :=
  cs.dropWhile isBlank

mutual

/-- A value, and what follows it; `depth` bounds the nesting and the number of
items at each level. -/
def value? : Nat → List Char → Option (Json × List Char)
  | 0, _ => none
  | depth + 1, cs =>
    match token cs with
    | 'n' :: 'u' :: 'l' :: 'l' :: rest => some (.null, rest)
    | 't' :: 'r' :: 'u' :: 'e' :: rest => some (.boolean true, rest)
    | 'f' :: 'a' :: 'l' :: 's' :: 'e' :: rest => some (.boolean false, rest)
    | '"' :: rest => (string? rest).map fun read => (.string read.1, read.2)
    | '[' :: rest =>
      match token rest with
      | ']' :: rest => some (.array [], rest)
      | rest => (items? depth rest).map fun read => (.array read.1, read.2)
    | '\x7b' :: rest =>
      match token rest with
      | '\x7d' :: rest => some (.object [], rest)
      | rest => (members? depth rest).map fun read => (.object read.1, read.2)
    | rest => (number? rest).map fun read => (.number read.1, read.2)

/-- The items of an array that has some, with its closing bracket. -/
def items? : Nat → List Char → Option (List Json × List Char)
  | 0, _ => none
  | depth + 1, cs => do
    let (item, rest) ← value? depth cs
    match token rest with
    | ',' :: rest => (items? depth rest).map fun read => (item :: read.1, read.2)
    | ']' :: rest => some ([item], rest)
    | _ => none

/-- The members of an object that has some, with its closing brace. -/
def members? : Nat → List Char → Option (List (List Char × Json) × List Char)
  | 0, _ => none
  | depth + 1, cs => do
    let .cons '"' rest := token cs | none
    let (name, rest) ← string? rest
    let .cons ':' rest := token rest | none
    let (item, rest) ← value? depth rest
    match token rest with
    | ',' :: rest => (members? depth rest).map fun read => ((name, item) :: read.1, read.2)
    | '\x7d' :: rest => some ([(name, item)], rest)
    | _ => none

end

/-- The value that a whole text is, blanks around it aside. -/
def read? (cs : List Char) : Option Json :=
  match value? (cs.length + 1) cs with
  | some (v, rest) => if token rest = [] then some v else none
  | none => none

/-! ### Strings as they are written -/

theorem token_cons {c : Char} {cs : List Char} (h : isBlank c = false) :
    token (c :: cs) = c :: cs := by
  rw [token, List.dropWhile_cons_of_neg (by simp [h])]

theorem hexValue?_hexDigit : ∀ n < 16, Toml.hexValue? (Text.hexDigit n) = some n := by
  decide

/-- The four digits of a number below 256 read as the number. -/
theorem unit?_hexDigits {n : Nat} (h : n < 0x100) (rest : List Char) :
    unit? ('0' :: '0' :: Text.hexDigit (n / 16) :: Text.hexDigit (n % 16) :: rest) =
      some (n, rest) := by
  have hhigh := hexValue?_hexDigit (n / 16) (by omega)
  have hlow := hexValue?_hexDigit (n % 16) (by omega)
  have hzero : Toml.hexValue? '0' = some 0 := by decide
  have hn : 16 * (n / 16) + n % 16 = n := Nat.div_add_mod n 16
  simp only [unit?, Toml.hexNumber?, List.foldlM_cons, List.foldlM_nil, hzero, hhigh, hlow,
    Option.map_some, Option.bind_eq_bind, Option.bind_some, Option.pure_def, Nat.mul_zero,
    Nat.zero_add, hn]

/-- A control character reads back from its four digits. -/
theorem unicode?_control {c : Char} (h : c.toNat < 0x20) (rest : List Char) :
    unicode? ('0' :: '0' :: Text.hexDigit (c.toNat / 16) :: Text.hexDigit (c.toNat % 16) ::
      rest) = some (c, rest) := by
  have hself : Toml.scalar? c.toNat = some c := by
    rw [Toml.scalar?, if_pos (.inl (by omega)), Char.ofNat_toNat]
  simp only [unicode?, unit?_hexDigits (show c.toNat < 0x100 by omega), Option.bind_eq_bind,
    Option.bind_some]
  rw [if_neg (by omega), hself, Option.map_some]

/-- **Every character reads back from the way it is written**, and the reader
stops right behind it. -/
theorem character?_jsonChar (c : Char) (rest : List Char) :
    character? (Text.jsonChar c ++ rest) = some (c, rest) := by
  unfold Text.jsonChar
  split
  -- The seven characters with an escape of their own are read by evaluation.
  case h_8 _ hbackslash _ _ _ _ _ =>
    split
    · next hc => exact unicode?_control hc rest
    · next hc =>
      rw [List.singleton_append, character?]
      · rw [if_pos ⟨hbackslash, by omega⟩]
      · intro cs heq
        exact (hbackslash heq).elim
      · intro d cs heq
        exact (hbackslash heq).elim
  all_goals rfl

/-- A written character is not a closing quote. -/
theorem jsonChar_ne_quote (c : Char) (rest tail : List Char) :
    Text.jsonChar c ++ rest ≠ '"' :: tail := by
  unfold Text.jsonChar
  split
  case h_8 hquote _ _ _ _ _ _ =>
    split
    · simp
    · intro heq
      exact hquote (List.cons.inj heq).1
  all_goals simp

/-- A string whose first character is read goes on behind it. -/
theorem string?_step {cs rest : List Char} {c : Char} (hq : ∀ tail, cs ≠ '"' :: tail)
    (h : character? cs = some (c, rest)) : string? cs = (string? rest).map (Toml.push c) := by
  rw [string?.eq_def]
  split
  · next tail => exact (hq tail rfl).elim
  · split
    · next hnone => rw [h] at hnone; cases hnone
    · next hsome => rw [h] at hsome; cases hsome; rfl

/-- The characters of a written string are read in order. -/
theorem string?_flatMap (cs rest : List Char) :
    string? (cs.flatMap Text.jsonChar ++ '"' :: rest) = some (cs, rest) := by
  induction cs with
  | nil =>
    rw [List.flatMap_nil, List.nil_append, string?]
  | cons c cs ih =>
    rw [List.flatMap_cons, List.append_assoc,
      string?_step (jsonChar_ne_quote c _) (character?_jsonChar c _), ih]
    rfl

/-- A written string, from its opening quote on. -/
theorem jsonString_append (cs rest : List Char) :
    Text.jsonString cs ++ rest = '"' :: (cs.flatMap Text.jsonChar ++ '"' :: rest) := by
  simp [Text.jsonString]

/-- **A string reads back from the way it is written**, whatever follows it. -/
theorem value?_jsonString (depth : Nat) (cs rest : List Char) :
    value? (depth + 1) (Text.jsonString cs ++ rest) = some (.string cs, rest) := by
  rw [jsonString_append, value?, token_cons rfl]
  simp only [string?_flatMap, Option.map_some]

theorem value?_boolean (depth : Nat) (b : Bool) (rest : List Char) :
    value? (depth + 1) (Context.jsonBool b ++ rest) = some (.boolean b, rest) := by
  cases b
  · rfl
  · rfl

/-! ### Objects as they are written -/

/-- What comes before the value of a member. -/
def nameOf (name : List Char) : List Char :=
  Text.jsonString name ++ [':']

/-- A member is its name, its value and whatever the rest of the object is. -/
theorem members?_nameOf {depth : Nat} {v : Json} {name text rest : List Char}
    (h : value? depth text = some (v, rest)) :
    members? (depth + 1) (nameOf name ++ text) =
      match token rest with
      | ',' :: rest => (members? depth rest).map fun read => ((name, v) :: read.1, read.2)
      | '\x7d' :: rest => some ([(name, v)], rest)
      | _ => none := by
  rw [nameOf, List.append_assoc, jsonString_append, List.singleton_append, members?,
    token_cons rfl]
  simp only [string?_flatMap, token_cons (show isBlank ':' = false from rfl), h,
    Option.bind_eq_bind, Option.bind_some]

/-- A member with a string for its value, and others behind it. -/
theorem members?_string (depth : Nat) (name text rest : List Char) :
    members? (depth + 2) (nameOf name ++ (Text.jsonString text ++ ',' :: rest)) =
      (members? (depth + 1) rest).map fun read => ((name, .string text) :: read.1, read.2) := by
  rw [members?_nameOf (value?_jsonString depth text (',' :: rest)), token_cons rfl]
  rfl

/-- The last member, with a truth value. -/
theorem members?_boolean (depth : Nat) (name : List Char) (b : Bool) (rest : List Char) :
    members? (depth + 2) (nameOf name ++ (Context.jsonBool b ++ '\x7d' :: rest)) =
      some ([(name, .boolean b)], rest) := by
  rw [members?_nameOf (value?_boolean depth b ('\x7d' :: rest)), token_cons rfl]
  rfl

/-- An object, from the members between its braces. -/
theorem value?_object {depth : Nat} {name cs rest : List Char}
    {members : List (List Char × Json)}
    (h : members? depth (nameOf name ++ cs) = some (members, rest)) :
    value? (depth + 1) ('\x7b' :: (nameOf name ++ cs)) = some (.object members, rest) := by
  have hname : nameOf name ++ cs =
      '"' :: (name.flatMap Text.jsonChar ++ '"' :: ':' :: cs) := by
    rw [nameOf, List.append_assoc, jsonString_append]
    rfl
  rw [hname] at h ⊢
  rw [value?, token_cons rfl]
  simp only [token_cons (show isBlank '"' = false from rfl)]
  exact congrArg (Option.map fun read => (Json.object read.1, read.2)) h

/-! ### Control characters -/

/-- Digits in base sixteen are at or above U+0020. -/
theorem le_hexDigit : ∀ n < 16, 0x20 ≤ (Text.hexDigit n).toNat := by
  decide

/-- Written characters are at or above U+0020. -/
theorem le_of_mem_jsonChar {c d : Char} (h : d ∈ Text.jsonChar c) : 0x20 ≤ d.toNat := by
  unfold Text.jsonChar at h
  split at h
  case h_8 =>
    split at h
    · next hc =>
      simp only [List.mem_cons, List.not_mem_nil, or_false] at h
      obtain rfl | rfl | rfl | rfl | rfl | rfl := h
      · decide
      · decide
      · decide
      · decide
      · exact le_hexDigit _ (by omega)
      · exact le_hexDigit _ (by omega)
    · next hc =>
      rw [List.mem_singleton.mp h]
      omega
  all_goals
    simp only [List.mem_cons, List.not_mem_nil, or_false] at h
    obtain rfl | rfl := h <;> decide

/-- A written string has no character below U+0020. -/
theorem le_of_mem_jsonString {cs : List Char} {d : Char} (h : d ∈ Text.jsonString cs) :
    0x20 ≤ d.toNat := by
  simp only [Text.jsonString, List.mem_cons, List.mem_append, List.not_mem_nil, or_false] at h
  obtain rfl | h | rfl := h
  · decide
  · obtain ⟨c, -, hd⟩ := List.mem_flatMap.mp h
    exact le_of_mem_jsonChar hd
  · decide

end Json

end ChangeWatch
