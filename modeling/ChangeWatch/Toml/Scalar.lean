import ChangeWatch.Toml.Strings

/-!
# Words: numbers, booleans, dates and times

A value that is no string, array or table is one word, a run of letters,
digits and the marks `+ - . : _`; only a date and a time may be joined by a
blank.  `word?` reads a whole word or refuses it: digits may be parted by
single underscores, a decimal number has no superfluous zero in front, an
integer fits 64 bits with sign, and a date is one of the calendar.
-/

namespace ChangeWatch.Toml

def isWordChar (c : Char) : Bool :=
  ('a' ≤ c && c ≤ 'z') || ('A' ≤ c && c ≤ 'Z') || ('0' ≤ c && c ≤ '9') ||
    c = '+' || c = '-' || c = '.' || c = ':' || c = '_'

/-- The value of a digit below a base. -/
def digit? (base : Nat) (c : Char) : Option Nat :=
  (hexValue? c).bind fun d => if d < base then some d else none

/-- Digits parted at most by single underscores; at least one. -/
def digits? (base : Nat) : List Char → Option (List Nat)
  | [] => none
  | [c] => (digit? base c).map ([·])
  | c :: '_' :: rest => do
    let d ← digit? base c
    (d :: ·) <$> digits? base rest
  | c :: rest => do
    let d ← digit? base c
    (d :: ·) <$> digits? base rest

def number (base : Nat) (ds : List Nat) : Nat :=
  ds.foldl (fun n d => base * n + d) 0

/-- Decimal digits without a superfluous zero in front. -/
def wholeDigits? (cs : List Char) : Option (List Nat) :=
  match cs with
  | '0' :: _ :: _ => none
  | cs => digits? 10 cs

/-- Whether a sign is a minus, and what follows the sign. -/
def splitSign : List Char → Bool × List Char
  | '-' :: rest => (true, rest)
  | '+' :: rest => (false, rest)
  | cs => (false, cs)

/-- An integer, when it fits 64 bits with sign. -/
def fitting? (n : Int) : Option Int :=
  if -(integerLimit : Int) ≤ n ∧ n < integerLimit then some n else none

/-- An integer in one of the four bases. -/
def integer? (cs : List Char) : Option Int :=
  match cs with
  | '0' :: 'x' :: rest => (digits? 16 rest).bind fun ds => fitting? (number 16 ds)
  | '0' :: 'o' :: rest => (digits? 8 rest).bind fun ds => fitting? (number 8 ds)
  | '0' :: 'b' :: rest => (digits? 2 rest).bind fun ds => fitting? (number 2 ds)
  | cs =>
    let (negative, body) := splitSign cs
    (wholeDigits? body).bind fun ds =>
      fitting? (if negative then -(number 10 ds : Int) else number 10 ds)

def exponent? (cs : List Char) : Option Int :=
  let (negative, body) := splitSign cs
  (digits? 10 body).map fun ds => if negative then -(number 10 ds : Int) else number 10 ds

/-- A number with a fraction, an exponent, or both; too great a positive number
is refused. -/
def float? (cs : List Char) : Option Binary64 :=
  let (negative, body) := splitSign cs
  match body with
  | ['i', 'n', 'f'] => some (.infinite negative)
  | ['n', 'a', 'n'] => some .nan
  | body => do
    let mantissa := body.takeWhile fun c => c ≠ 'e' && c ≠ 'E'
    let power := body.drop mantissa.length
    let whole := mantissa.takeWhile (· ≠ '.')
    let fraction := mantissa.drop whole.length
    let wholeDs ← wholeDigits? whole
    let fractionDs ← match fraction with
      | [] => some []
      | _ :: rest => digits? 10 rest
    let exponent ← match power with
      | [] => some 0
      | _ :: rest => exponent? rest
    if fraction = [] ∧ power = [] then none
    else
      match Binary64.ofDecimal negative (number 10 (wholeDs ++ fractionDs))
          (exponent - fractionDs.length) with
      | .infinite false => none
      | x => some x

/-- Exactly so many decimal digits from the front, with what follows. -/
def fixedDigits? : Nat → List Char → Option (Nat × List Char)
  | n, cs =>
    if cs.length < n then none
    else (((cs.take n).mapM (digit? 10)).map (number 10)).map (·, cs.drop n)

def monthLength (year month : Nat) : Nat :=
  if month = 2 then
    if year % 4 = 0 ∧ (year % 100 ≠ 0 ∨ year % 400 = 0) then 29 else 28
  else if month = 4 ∨ month = 6 ∨ month = 9 ∨ month = 11 then 30
  else 31

/-- What follows a mark, when it comes next. -/
def after? (mark : Char) : List Char → Option (List Char)
  | c :: rest => if c = mark then some rest else none
  | [] => none

def date? (cs : List Char) : Option (List Char) := do
  let (year, cs) ← fixedDigits? 4 cs
  let cs ← after? '-' cs
  let (month, cs) ← fixedDigits? 2 cs
  let cs ← after? '-' cs
  let (day, cs) ← fixedDigits? 2 cs
  if 1 ≤ month ∧ month ≤ 12 ∧ 1 ≤ day ∧ day ≤ monthLength year month then some cs else none

def hourMinute? (cs : List Char) : Option (List Char) := do
  let (hour, cs) ← fixedDigits? 2 cs
  let cs ← after? ':' cs
  let (minute, cs) ← fixedDigits? 2 cs
  if hour ≤ 23 ∧ minute ≤ 59 then some cs else none

def time? (cs : List Char) : Option (List Char) := do
  let cs ← hourMinute? cs
  let cs ← after? ':' cs
  let (second, cs) ← fixedDigits? 2 cs
  if 60 < second then none
  else
    match cs with
    | '.' :: rest =>
      let kept := rest.dropWhile fun c => (digit? 10 c).isSome
      if kept.length < rest.length then some kept else none
    | cs => some cs

/-- What follows a time of day and, possibly, the distance from UTC. -/
def zonedTime? (cs : List Char) : Option (List Char) := do
  match ← time? cs with
  | 'Z' :: rest | 'z' :: rest => some rest
  | '+' :: rest | '-' :: rest => hourMinute? rest
  | cs => some cs

/-- Whether a word is a date, a time of day, or a date joined to a time by a
letter. -/
def isMoment (cs : List Char) : Bool :=
  match date? cs with
  | some [] => true
  | some ('T' :: rest) | some ('t' :: rest) => zonedTime? rest = some []
  | some _ => false
  | none => time? cs = some []

def word? (cs : List Char) : Option Value :=
  match cs with
  | ['t', 'r', 'u', 'e'] => some (.boolean true)
  | ['f', 'a', 'l', 's', 'e'] => some (.boolean false)
  | cs =>
    match integer? cs with
    | some n => some (.integer n)
    | none =>
      match float? cs with
      | some x => some (.float x)
      | none => if isMoment cs then some .moment else none

/-- A word from the front, with what follows; a date takes along a time of day
behind one blank. -/
def scalar (cs : List Char) : Option (Value × List Char) :=
  let word := cs.takeWhile isWordChar
  let rest := cs.drop word.length
  match date? word, rest with
  | some [], ' ' :: more =>
    let second := more.takeWhile isWordChar
    if zonedTime? second = some [] then some (.moment, more.drop second.length)
    else some (.moment, rest)
  | _, rest => (word? word).map (·, rest)

end ChangeWatch.Toml
