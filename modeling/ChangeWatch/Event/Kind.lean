/-!
# Kinds of change

A watched directory reports entries that appear, change or disappear, and
that some reports were lost.  The order of `EventKind.all` is the order in
which kinds are listed everywhere.

A kind is named by a word, in which capitals do not matter, nor do blank
characters at either end; `Text.isBlank` is the Unicode property White_Space.
-/

namespace ChangeWatch

inductive EventKind where
  /-- An entry appeared, or was moved in. -/
  | create
  /-- The contents or metadata of an entry changed. -/
  | modify
  /-- An entry disappeared, or was moved out. -/
  | delete
  /-- Reports were lost. -/
  | overflow
  deriving DecidableEq, Repr, Inhabited

namespace EventKind

/-- All kinds, in listing order. -/
def all : List EventKind := [.create, .modify, .delete, .overflow]

theorem mem_all (k : EventKind) : k ∈ all := by
  cases k <;> decide

def word : EventKind → String
  | .create => "create"
  | .modify => "modify"
  | .delete => "delete"
  | .overflow => "overflow"

/-- The word for a kind with a capital, as in listings of handlers. -/
def title : EventKind → String
  | .create => "Create"
  | .modify => "Modify"
  | .delete => "Delete"
  | .overflow => "Overflow"

end EventKind

/-! ### Spellings -/

namespace Text

/-- Whether a character has the Unicode property White_Space. -/
def isBlank (c : Char) : Bool :=
  let n := c.toNat
  (0x09 ≤ n && n ≤ 0x0D) || n = 0x20 || n = 0x85 || n = 0xA0 || n = 0x1680 ||
    (0x2000 ≤ n && n ≤ 0x200A) || n = 0x2028 || n = 0x2029 || n = 0x202F ||
    n = 0x205F || n = 0x3000

/-- The text without the blank characters at its two ends. -/
def trim (cs : List Char) : List Char :=
  ((cs.dropWhile isBlank).reverse.dropWhile isBlank).reverse

/-- An ASCII capital becomes its small letter; every other character stays. -/
def lowerAscii (c : Char) : Char :=
  if 'A' ≤ c ∧ c ≤ 'Z' then Char.ofNat (c.toNat + 32) else c

end Text

namespace EventKind

/-- The word that a spelling stands for: blanks at the ends and capitals do
not matter. -/
def plainWord (s : String) : String :=
  String.ofList ((Text.trim s.toList).map Text.lowerAscii)

/-- The kind whose word a spelling stands for. -/
def ofSpelling? (s : String) : Option EventKind :=
  all.find? fun k => k.word = plainWord s

/-- What is said of a spelling that stands for no kind. -/
def unknownMessage (s : String) : String :=
  "unknown event kind '" ++ plainWord s ++ "'"

end EventKind

end ChangeWatch
