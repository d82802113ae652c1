/-!
# Durations

A span of time in whole nanoseconds.  `Duration.brief` writes it in the
largest unit of which it holds at least one, as a decimal number without
superfluous zeros: `200ms`, `1.5s`, `1.5µs`, and `0ns` for nothing at all.
-/

namespace ChangeWatch

/-- A span of time. -/
structure Duration where
  nanoseconds : Nat
  deriving DecidableEq, Repr, Inhabited

namespace Duration

def zero : Duration := ⟨0⟩

def isZero (d : Duration) : Bool :=
  d.nanoseconds = 0

def ofMillis (ms : Nat) : Duration :=
  ⟨ms * 1000000⟩

def ofSeconds (seconds nanoseconds : Nat) : Duration :=
  ⟨seconds * 1000000000 + nanoseconds⟩

def seconds (d : Duration) : Nat :=
  d.nanoseconds / 1000000000

/-- The nanoseconds beyond the whole seconds. -/
def subsecond (d : Duration) : Nat :=
  d.nanoseconds % 1000000000

def millis (d : Duration) : Nat :=
  d.nanoseconds / 1000000

/-- A number in base ten, padded with zeros to a width. -/
def padded (width n : Nat) : String :=
  let digits := Nat.repr n
  String.ofList (List.replicate (width - digits.length) '0') ++ digits

/-- `n / 10 ^ places` as a decimal number without superfluous zeros. -/
def decimal (places n : Nat) : String :=
  let whole := n / Nat.pow 10 places
  let rest := n % Nat.pow 10 places
  if rest = 0 then Nat.repr whole
  else
    let digits := (padded places rest).toList.reverse.dropWhile (· == '0')
    Nat.repr whole ++ "." ++ String.ofList digits.reverse

/-- The span in its largest fitting unit. -/
def brief (d : Duration) : String :=
  if 1000000000 ≤ d.nanoseconds then decimal 9 d.nanoseconds ++ "s"
  else if 1000000 ≤ d.nanoseconds then decimal 6 d.nanoseconds ++ "ms"
  else if 1000 ≤ d.nanoseconds then decimal 3 d.nanoseconds ++ "µs"
  else decimal 0 d.nanoseconds ++ "ns"

end Duration

end ChangeWatch
