/-!
# Binary floating-point numbers of 64 bits, by exact arithmetic

A finite value is `mantissa * 2 ^ exponent` with a sign.  `ofDecimal` rounds a
decimal number to the nearest value, a tie to the even mantissa.

`shortest` goes back: of all decimal numbers that round to a value it picks
one with the coarsest grid of powers of ten, and on that grid the nearest, of two
equally near ones the greater.
The decimals that round to a value fill an interval around it, ends included
exactly when the mantissa is even; a grid has a point in the interval exactly
when one of the value's two neighbours on the grid lies in it, so two
candidates per grid decide.  `text` writes the result in positional notation,
always with a point.
-/

namespace ChangeWatch

inductive Binary64 where
  | finite (negative : Bool) (mantissa : Nat) (exponent : Int)
  | infinite (negative : Bool)
  | nan
  deriving DecidableEq, Repr, Inhabited

namespace Binary64

def precision : Nat := 53

def minExponent : Int := -1074

def maxExponent : Int := 971

/-- A quotient rounded to the nearest number, a tie to the even one. -/
def roundDiv (num den : Nat) : Nat :=
  let q := num / den
  let r := num % den
  if 2 * r < den then q
  else if den < 2 * r then q + 1
  else if q % 2 = 0 then q else q + 1

/-- The greatest `n` with `2 ^ n ≤ num / den`. -/
def logQuotient (num den : Nat) : Int :=
  let l : Int := (Nat.log2 num : Int) - (Nat.log2 den : Int)
  if den * Nat.pow 2 l.toNat ≤ num * Nat.pow 2 (-l).toNat then l else l - 1

/-- The value nearest to a positive quotient. -/
def ofQuotient (negative : Bool) (num den : Nat) : Binary64 :=
  let e := max minExponent (logQuotient num den - (precision - 1 : Nat))
  let m := roundDiv (num * Nat.pow 2 (-e).toNat) (den * Nat.pow 2 e.toNat)
  let (m, e) := if m = Nat.pow 2 precision then (Nat.pow 2 (precision - 1), e + 1) else (m, e)
  if maxExponent < e then .infinite negative else .finite negative m e

/-- The value nearest to `coefficient * 10 ^ exponent`. -/
def ofDecimal (negative : Bool) (coefficient : Nat) (exponent : Int) : Binary64 :=
  let magnitude : Int := exponent + (Nat.toDigits 10 coefficient).length
  if coefficient = 0 ∨ magnitude < -330 then .finite negative 0 0
  else if 310 < magnitude then .infinite negative
  else
    ofQuotient negative (coefficient * Nat.pow 10 exponent.toNat) (Nat.pow 10 (-exponent).toNat)

/-- The shortest decimal on the grids `10 ^ k`, `10 ^ (k - 1)`, … that reads back as
`m * 2 ^ e`, as a coefficient and an exponent; at most so many grids are tried. -/
def shortestFrom (m : Nat) (e : Int) : Nat → Int → Nat × Int
  | 0, k => (0, k)
  | tries + 1, k =>
    let unit := Nat.pow 2 e.toNat
    let den := 4 * Nat.pow 2 (-e).toNat
    let value := 4 * m * unit
    -- at a power of two the next value below is half as far away
    let below := if m = Nat.pow 2 (precision - 1) ∧ minExponent < e then unit else 2 * unit
    let above := 2 * unit
    let fine := Nat.pow 10 (-k).toNat
    let coarse := Nat.pow 10 k.toNat
    let step := coarse * den
    let inside (c : Nat) : Bool :=
      if m % 2 = 0 then
        (value - below) * fine ≤ c * step && c * step ≤ (value + above) * fine
      else (value - below) * fine < c * step && c * step < (value + above) * fine
    let c := value * fine / step
    let lower := value * fine - c * step
    match inside c, inside (c + 1) with
    | true, true => (if 2 * lower < step then c else c + 1, k)
    | true, false => (c, k)
    | false, true => (c + 1, k)
    | false, false => shortestFrom m e tries (k - 1)

/-- The shortest decimal that reads back as `m * 2 ^ e`. -/
def shortest (m : Nat) (e : Int) : Nat × Int :=
  if m = 0 then (0, 0) else shortestFrom m e 640 309

/-- `coefficient * 10 ^ exponent` in positional notation, with a point. -/
def positional (coefficient : Nat) (exponent : Int) : String :=
  if 0 ≤ exponent then Nat.repr (coefficient * Nat.pow 10 exponent.toNat) ++ ".0"
  else
    let places := (-exponent).toNat
    let digits := (Nat.repr (coefficient % Nat.pow 10 places)).toList
    Nat.repr (coefficient / Nat.pow 10 places) ++ "." ++
      String.ofList (List.replicate (places - digits.length) '0' ++ digits)

def text : Binary64 → String
  | .finite negative m e =>
    let (c, k) := shortest m e
    (if negative then "-" else "") ++ positional c k
  | .infinite negative => if negative then "-inf" else "inf"
  | .nan => "NaN"

end Binary64

end ChangeWatch
