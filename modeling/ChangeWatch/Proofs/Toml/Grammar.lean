import ChangeWatch.Toml.Reader
import Mathlib.Data.Nat.Digits.Defs

/-!
# What a TOML document is

The format by its grammar, in version 1.0, as relations between a text and what it says.
Nothing is read here: a text stands for something if it can be put together so.  Keys are `Key`,
values `Says`, lines `Expression`.  A document is lines parted by line breaks (`Lines`) of which
tables can be made, as `assembled` says, which adds the rules on names that are given twice
(`WellFormed`).

There are no bounds in the grammar, neither for integers nor for how deep values nest.
-/

namespace ChangeWatch.Toml

/-- The fields that the lines of a document put together. -/
def assembled (lines : List Line) : Option Fields :=
  (Fields.assignAll [] (sections lines).1).bind fun fields =>
    (sections lines).2.foldlM Fields.addSection fields

namespace Grammar

/-! ### Between and behind -/

/-- Blanks, possibly none. -/
def Blanks (t : List Char) : Prop :=
  ∀ c ∈ t, isBlank c = true

/-- What a comment says. -/
def Remark (t : List Char) : Prop :=
  ∀ c ∈ t, isPlain c = true

inductive Newline : List Char → Prop
  | feed : Newline ['\n']
  | returned : Newline ['\r', '\n']

/-- What may stand behind all else in a line: blanks, and possibly a comment. -/
inductive Trail : List Char → Prop
  | blanks {t : List Char} : Blanks t → Trail t
  | comment {t remark : List Char} : Blanks t → Remark remark → Trail (t ++ '#' :: remark)

/-- What may stand between the items of an array. -/
inductive Space : List Char → Prop
  | nil : Space []
  | blank {c : Char} {t : List Char} : isBlank c = true → Space t → Space (c :: t)
  | newline {nl t : List Char} : Newline nl → Space t → Space (nl ++ t)
  | comment {remark nl t : List Char} : Remark remark → Newline nl → Space t →
      Space ('#' :: remark ++ nl ++ t)

/-! ### Numbers -/

/-- A digit of a base, a letter in either case. -/
inductive Digit (base : Nat) : Char → Nat → Prop
  | small {d : Nat} : d < base → Digit base (Nat.digitChar d) d
  | capital {d : Nat} : d < base → Digit base (Nat.digitChar d).toUpper d

/-- The number that has these digits, the first one the highest. -/
def amount (base : Nat) (ds : List Nat) : Nat :=
  Nat.ofDigits base ds.reverse

/-- A number of so many digits. -/
def Fixed (base count : Nat) (t : List Char) (n : Nat) : Prop :=
  t.length = count ∧ ∃ ds, List.Forall₂ (Digit base) t ds ∧ n = amount base ds

/-- Digits, two of them parted at most by an underscore. -/
inductive Digits (base : Nat) : List Char → List Nat → Prop
  | last {c : Char} {d : Nat} : Digit base c d → Digits base [c] [d]
  | next {c : Char} {d : Nat} {t : List Char} {ds : List Nat} :
      Digit base c d → Digits base t ds → Digits base (c :: t) (d :: ds)
  | parted {c : Char} {d : Nat} {t : List Char} {ds : List Nat} :
      Digit base c d → Digits base t ds → Digits base (c :: '_' :: t) (d :: ds)

/-- Decimal digits, with a zero in front only if it is alone. -/
def Whole (t : List Char) (ds : List Nat) : Prop :=
  Digits 10 t ds ∧ (t.head? = some '0' → t = ['0'])

/-- A sign, which may be left out, and whether it is a minus. -/
inductive Sign : List Char → Bool → Prop
  | unsaid : Sign [] false
  | plus : Sign ['+'] false
  | minus : Sign ['-'] true

/-- A number with its sign. -/
def signed (negative : Bool) (n : Nat) : Int :=
  if negative then -(n : Int) else n

inductive Integer : List Char → Int → Prop
  | decimal {sign t : List Char} {negative : Bool} {ds : List Nat} : Sign sign negative →
      Whole t ds → Integer (sign ++ t) (signed negative (amount 10 ds))
  | hexadecimal {t : List Char} {ds : List Nat} : Digits 16 t ds →
      Integer ('0' :: 'x' :: t) (amount 16 ds)
  | octal {t : List Char} {ds : List Nat} : Digits 8 t ds →
      Integer ('0' :: 'o' :: t) (amount 8 ds)
  | binary {t : List Char} {ds : List Nat} : Digits 2 t ds →
      Integer ('0' :: 'b' :: t) (amount 2 ds)

/-- A fraction, which may be left out, and its digits. -/
inductive Fraction : List Char → List Nat → Prop
  | unsaid : Fraction [] []
  | digits {t : List Char} {ds : List Nat} : Digits 10 t ds → Fraction ('.' :: t) ds

/-- An exponent, which may be left out. -/
inductive Exponent : List Char → Int → Prop
  | unsaid : Exponent [] 0
  | power {letter : Char} {sign t : List Char} {negative : Bool} {ds : List Nat} :
      letter ∈ ['e', 'E'] → Sign sign negative → Digits 10 t ds →
      Exponent (letter :: sign ++ t) (signed negative (amount 10 ds))

inductive Float : List Char → Binary64 → Prop
  | decimal {sign t f e : List Char} {negative : Bool} {ds fs : List Nat} {power : Int} :
      Sign sign negative → Whole t ds → Fraction f fs → Exponent e power → f ++ e ≠ [] →
      Float (sign ++ t ++ f ++ e)
        (Binary64.ofDecimal negative (amount 10 (ds ++ fs)) (power - fs.length))
  | infinite {sign : List Char} {negative : Bool} : Sign sign negative →
      Float (sign ++ ['i', 'n', 'f']) (.infinite negative)
  | nan {sign : List Char} {negative : Bool} : Sign sign negative →
      Float (sign ++ ['n', 'a', 'n']) .nan

/-! ### Dates and times -/

inductive Date : List Char → Prop
  | mk {y m d : List Char} {year month day : Nat} : Fixed 10 4 y year → Fixed 10 2 m month →
      Fixed 10 2 d day → 1 ≤ month → month ≤ 12 → 1 ≤ day → day ≤ monthLength year month →
      Date (y ++ '-' :: m ++ '-' :: d)

inductive HourMinute : List Char → Prop
  | mk {h m : List Char} {hour minute : Nat} : Fixed 10 2 h hour → Fixed 10 2 m minute →
      hour ≤ 23 → minute ≤ 59 → HourMinute (h ++ ':' :: m)

/-- A time of day, possibly with a fraction of a second; a minute may have a leap second. -/
inductive Time : List Char → Prop
  | whole {t s : List Char} {second : Nat} : HourMinute t → Fixed 10 2 s second → second ≤ 60 →
      Time (t ++ ':' :: s)
  | fraction {t s f : List Char} {count second n : Nat} : HourMinute t → Fixed 10 2 s second →
      second ≤ 60 → 0 < count → Fixed 10 count f n → Time (t ++ ':' :: s ++ '.' :: f)

/-- The distance from UTC. -/
inductive Offset : List Char → Prop
  | none {letter : Char} : letter ∈ ['Z', 'z'] → Offset [letter]
  | distance {sign : Char} {t : List Char} : sign ∈ ['+', '-'] → HourMinute t → Offset (sign :: t)

inductive Moment : List Char → Prop
  | date {d : List Char} : Date d → Moment d
  | time {t : List Char} : Time t → Moment t
  | both {d t : List Char} {mark : Char} : Date d → mark ∈ ['T', 't', ' '] → Time t →
      Moment (d ++ mark :: t)
  | offset {d t o : List Char} {mark : Char} : Date d → mark ∈ ['T', 't', ' '] → Time t →
      Offset o → Moment (d ++ mark :: t ++ o)

/-! ### Strings -/

/-- A character by its escape: a letter, or its code point in four or eight digits. -/
inductive Escape : List Char → Char → Prop
  | letter {letter c : Char} : escapeLetter? letter = some c → Escape ['\\', letter] c
  | short {t : List Char} {c : Char} : Fixed 16 4 t c.toNat → Escape ('\\' :: 'u' :: t) c
  | long {t : List Char} {c : Char} : Fixed 16 8 t c.toNat → Escape ('\\' :: 'U' :: t) c

/-- What stands between double quotes, and what it stands for. -/
inductive BasicText : List Char → List Char → Prop
  | nil : BasicText [] []
  | plain {c : Char} {t s : List Char} : isPlain c = true → c ≠ '"' → c ≠ '\\' → BasicText t s →
      BasicText (c :: t) (c :: s)
  | escape {e t s : List Char} {c : Char} : Escape e c → BasicText t s →
      BasicText (e ++ t) (c :: s)

/-- What stands between single quotes, as it is. -/
def LiteralText (t : List Char) : Prop :=
  ∀ c ∈ t, isPlain c = true ∧ c ≠ '\''

/-- What a line that ends in a backslash goes on with: no blank and no line break. -/
def Resumes (t : List Char) : Prop :=
  ∀ c ∈ t.head?, isBlank c = false ∧ c ≠ '\n' ∧ c ≠ '\r'

/-- What stands between three double quotes, where so many quotes may come next, and what it
stands for. -/
inductive LongBasicText : Nat → List Char → List Char → Prop
  | nil {n : Nat} : LongBasicText n [] []
  | quote {n : Nat} {t s : List Char} : LongBasicText n t s →
      LongBasicText (n + 1) ('"' :: t) ('"' :: s)
  | plain {n : Nat} {c : Char} {t s : List Char} : isPlain c = true → c ≠ '"' → c ≠ '\\' →
      LongBasicText 2 t s → LongBasicText n (c :: t) (c :: s)
  | escape {n : Nat} {e t s : List Char} {c : Char} : Escape e c → LongBasicText 2 t s →
      LongBasicText n (e ++ t) (c :: s)
  | newline {n : Nat} {nl t s : List Char} : Newline nl → LongBasicText 2 t s →
      LongBasicText n (nl ++ t) ('\n' :: s)
  | skipped {n : Nat} {blanks nl space t s : List Char} : Blanks blanks → Newline nl →
      (∀ c ∈ space, c ≠ '#') → Space space → Resumes t → LongBasicText 2 t s →
      LongBasicText n ('\\' :: blanks ++ nl ++ space ++ t) s

/-- What stands between three single quotes, where so many quotes may come next, and what it
stands for. -/
inductive LongLiteralText : Nat → List Char → List Char → Prop
  | nil {n : Nat} : LongLiteralText n [] []
  | quote {n : Nat} {t s : List Char} : LongLiteralText n t s →
      LongLiteralText (n + 1) ('\'' :: t) ('\'' :: s)
  | plain {n : Nat} {c : Char} {t s : List Char} : isPlain c = true → c ≠ '\'' →
      LongLiteralText 2 t s → LongLiteralText n (c :: t) (c :: s)
  | newline {n : Nat} {nl t s : List Char} : Newline nl → LongLiteralText 2 t s →
      LongLiteralText n (nl ++ t) ('\n' :: s)

/-- A string, and what it stands for; a line break right behind three quotes is dropped. -/
inductive Text : List Char → List Char → Prop
  | basic {t s : List Char} : BasicText t s → Text ('"' :: t ++ ['"']) s
  | literal {t : List Char} : LiteralText t → Text ('\'' :: t ++ ['\'']) t
  | longBasic {t s : List Char} : LongBasicText 2 (dropBreak t) s →
      Text (['"', '"', '"'] ++ t ++ ['"', '"', '"']) s
  | longLiteral {t s : List Char} : LongLiteralText 2 (dropBreak t) s →
      Text (['\'', '\'', '\''] ++ t ++ ['\'', '\'', '\'']) s

/-! ### Keys and values -/

inductive KeyPart : List Char → Name → Prop
  | bare {t : List Char} : t ≠ [] → (∀ c ∈ t, isBareChar c = true) → KeyPart t t
  | basic {t s : List Char} : BasicText t s → KeyPart ('"' :: t ++ ['"']) s
  | literal {t : List Char} : LiteralText t → KeyPart ('\'' :: t ++ ['\'']) t

inductive Key : List Char → List Name → Prop
  | simple {t : List Char} {name : Name} : KeyPart t name → Key t [name]
  | dotted {t b b' more : List Char} {name : Name} {names : List Name} : KeyPart t name →
      Blanks b → Blanks b' → Key more names → Key (t ++ b ++ '.' :: b' ++ more) (name :: names)

mutual

inductive Says : List Char → Value → Prop
  | yes : Says ['t', 'r', 'u', 'e'] (.boolean true)
  | no : Says ['f', 'a', 'l', 's', 'e'] (.boolean false)
  | integer {t : List Char} {n : Int} : Integer t n → Says t (.integer n)
  | float {t : List Char} {x : Binary64} : Float t x → Says t (.float x)
  | moment {t : List Char} : Moment t → Says t .moment
  | string {t s : List Char} : Text t s → Says t (.string s)
  | array {t : List Char} {vs : List Value} : Items t vs → Says ('[' :: t ++ [']']) (.array vs)
  | empty {t : List Char} : Blanks t → Says ('\x7b' :: t ++ ['\x7d']) (.table .inline [])
  | table {b t b' : List Char} {pairs : List (List Name × Value)} {fields : Fields} :
      Blanks b → Pairs t pairs → Blanks b' → Fields.assignAll [] pairs = some fields →
      Says ('\x7b' :: b ++ t ++ b' ++ ['\x7d']) (.table .inline fields)

/-- The items of an array; a comma may stand behind the last one. -/
inductive Items : List Char → List Value → Prop
  | nil {t : List Char} : Space t → Items t []
  | last {b t b' : List Char} {v : Value} : Space b → Says t v → Space b' →
      Items (b ++ t ++ b') [v]
  | more {b t b' rest : List Char} {v : Value} {vs : List Value} : Space b → Says t v →
      Space b' → Items rest vs → Items (b ++ t ++ b' ++ ',' :: rest) (v :: vs)

/-- The pairs of an inline table. -/
inductive Pairs : List Char → List (List Name × Value) → Prop
  | last {t : List Char} {key : List Name} {v : Value} : Pair t key v → Pairs t [(key, v)]
  | more {t b b' rest : List Char} {key : List Name} {v : Value}
      {pairs : List (List Name × Value)} : Pair t key v → Blanks b → Blanks b' →
      Pairs rest pairs → Pairs (t ++ b ++ ',' :: b' ++ rest) ((key, v) :: pairs)

inductive Pair : List Char → List Name → Value → Prop
  | mk {k b b' t : List Char} {key : List Name} {v : Value} : Key k key → Blanks b → Blanks b' →
      Says t v → Pair (k ++ b ++ '=' :: b' ++ t) key v

end

/-! ### Documents -/

/-- A line, and what it says, if anything. -/
inductive Expression : List Char → Option Line → Prop
  | unsaid {trail : List Char} : Trail trail → Expression trail none
  | pair {b t trail : List Char} {key : List Name} {v : Value} : Blanks b → Pair t key v →
      Trail trail → Expression (b ++ t ++ trail) (some (.pair key v))
  | header {b b' k b'' trail : List Char} {path : List Name} : Blanks b → Blanks b' → Key k path →
      Blanks b'' → Trail trail →
      Expression (b ++ '[' :: b' ++ k ++ b'' ++ ']' :: trail) (some (.header false path))
  | listHeader {b b' k b'' trail : List Char} {path : List Name} : Blanks b → Blanks b' →
      Key k path → Blanks b'' → Trail trail →
      Expression (b ++ '[' :: '[' :: b' ++ k ++ b'' ++ ']' :: ']' :: trail)
        (some (.header true path))

/-- Lines parted by line breaks. -/
inductive Lines : List Char → List Line → Prop
  | last {t : List Char} {line : Option Line} : Expression t line → Lines t line.toList
  | more {t nl rest : List Char} {line : Option Line} {lines : List Line} : Expression t line →
      Newline nl → Lines rest lines → Lines (t ++ nl ++ rest) (line.toList ++ lines)

end Grammar

/-- A text is a well-formed document with these fields at its top. -/
def WellFormed (text : List Char) (fields : Fields) : Prop :=
  ∃ lines, Grammar.Lines text lines ∧ assembled lines = some fields

end ChangeWatch.Toml
