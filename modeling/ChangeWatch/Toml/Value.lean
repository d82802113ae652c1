import ChangeWatch.Number.Binary64
import ChangeWatch.Text.Quoted

/-!
# Values of a TOML document

A document is a table: fields in the order in which they were first written.
Tables remember how they came to be, since the format forbids to extend a
table in another way than it was begun.
-/

namespace ChangeWatch.Toml

/-- The least number that is too great for an integer, two to the power of 63. -/
def integerLimit : Nat := 9223372036854775808

/-- How a table came to be. -/
inductive TableForm where
  /-- Written between braces; complete. -/
  | inline
  /-- Named by a header of its own. -/
  | headed
  /-- Named only on the way to the table of another header. -/
  | implied
  /-- Begun by a dotted key. -/
  | dotted
  deriving DecidableEq, Repr

inductive Value where
  | integer (n : Int)
  | float (x : Binary64)
  | boolean (b : Bool)
  | string (text : List Char)
  /-- A date, a time, or both. -/
  | moment
  | array (items : List Value)
  | table (form : TableForm) (fields : List (List Char × Value))
  /-- The tables of headers in double brackets. -/
  | tables (items : List (List (List Char × Value)))
  deriving Repr, Inhabited

/-- A table's fields, in order. -/
abbrev Fields := List (List Char × Value)

/-- A sort of value, with the value itself where a message names it. -/
inductive Found where
  | integer (n : Int)
  | float (x : Binary64)
  | boolean (b : Bool)
  | string (text : List Char)
  | sequence
  | map
  deriving DecidableEq, Repr

/-- What a message calls a value; a moment counts as a table. -/
def Value.found : Value → Found
  | .integer n => .integer n
  | .float x => .float x
  | .boolean b => .boolean b
  | .string text => .string text
  | .array _ | .tables _ => .sequence
  | .moment | .table .. => .map

/-- The text by which a message names a sort of value. -/
def Found.describe : Found → String
  | .integer n => "integer `" ++ toString n ++ "`"
  | .float x => "floating point `" ++ x.text ++ "`"
  | .boolean b => "boolean `" ++ (if b then "true" else "false") ++ "`"
  | .string text => "string " ++ String.ofList (Text.quoted text)
  | .sequence => "sequence"
  | .map => "map"

end ChangeWatch.Toml
