import ChangeWatch.Disk.Basic
import ChangeWatch.Error
import ChangeWatch.Toml.Reader

/-!
# Settings in a document

Four fields are known, each optional; any other is a problem, and so is a
value of the wrong sort.  Fields are looked at in file order, and the first
problem is the one reported.

`Settings.document?` is the way back: one line per field, in a fixed order,
the poll interval only if it is set.  It exists when every number fits a
signed integer of 64 bits, the only integers that a document has.

`Settings.parse` is what a text has to say, a poll interval of zero refused.
`Settings.load` reads a file that must be there; for `Settings.loadOrDefault`
a path that leads nowhere means the default settings.
-/

namespace ChangeWatch

namespace Settings

/-- The names of the fields, in the order in which they are written. -/
def delayField : List Char := "delay_ms".toList
def depthField : List Char := "max_depth".toList
def pollField : List Char := "poll_interval_ms".toList
def compareField : List Char := "compare_contents".toList

open Toml

/-- A number of a field that holds a natural one. -/
def natural (wanted : String) : Value → Except SettingsProblem Nat
  | .integer n => if 0 ≤ n then .ok n.toNat else .error (.negative n wanted)
  | v => .error (.wrongSort v.found wanted)

def truth : Value → Except SettingsProblem Bool
  | .boolean b => .ok b
  | v => .error (.wrongSort v.found "a boolean")

def withField (s : Settings) (field : List Char × Value) : Except SettingsProblem Settings :=
  let (key, v) := field
  if key = delayField then (natural "u64" v).map fun n => { s with delayMs := n }
  else if key = depthField then (natural "usize" v).map fun n => { s with maxDepth := n }
  else if key = pollField then
    (natural "u64" v).map fun n => { s with pollIntervalMs := some n }
  else if key = compareField then (truth v).map fun b => { s with compareContents := b }
  else .error (.unknownField key)

/-- The settings that a list of fields gives. -/
def ofFields (fields : Fields) : Except SettingsProblem Settings :=
  fields.foldlM withField default

/-- The settings that a text gives, before they are checked. -/
def ofText (text : List Char) : Except SettingsProblem Settings :=
  match document? text with
  | none => .error .malformed
  | some fields => ofFields fields

/-- A field and its value on a line of its own. -/
def fieldLine (key value : List Char) : List Char :=
  key ++ [' ', '=', ' '] ++ value ++ ['\n']

/-- A number of a document. -/
def numeral? (n : Nat) : Option (List Char) :=
  if n < integerLimit then some (Nat.toDigits 10 n) else none

/-- A truth value of a document. -/
def truthWord (b : Bool) : List Char :=
  if b then "true".toList else "false".toList

/-- The settings as a document; `none` when a number is too great for one. -/
def document? (s : Settings) : Option (List Char) := do
  let delay ← numeral? s.delayMs
  let depth ← numeral? s.maxDepth
  let poll ← match s.pollIntervalMs with
    | none => some []
    | some n => (numeral? n).map (fieldLine pollField)
  some (fieldLine delayField delay ++ fieldLine depthField depth ++ poll ++
    fieldLine compareField (truthWord s.compareContents))

/-! ### Settings in a file -/

/-- The settings, unless they ask for a poll interval of zero. -/
def check (s : Settings) : Except WatchError Settings :=
  if s.pollIntervalMs = some 0 then .error .zeroPollInterval else .ok s

/-- The settings that a text gives. -/
def parse (text : List Char) : Except WatchError Settings :=
  match ofText text with
  | .error problem => .error (.settings problem)
  | .ok s => s.check

def load (disk : Disk) (p : Path) : Except WatchError Settings :=
  match disk.readText p with
  | .error fault => .error (.io p fault)
  | .ok text => parse text

/-- The settings in a file, or the default ones when there is none. -/
def loadOrDefault (disk : Disk) (p : Path) : Except WatchError Settings :=
  if disk.exists? p then load disk p else .ok default

end Settings

end ChangeWatch
