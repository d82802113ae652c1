import ChangeWatch.Disk.Basic
import ChangeWatch.Event.Kind
import ChangeWatch.Text.Quoted

/-!
# Observed changes, and how they are shown

A `Context` is what a callback is given: the kind of change, the affected
path, and whether that path was a directory when the change was looked at.

It is shown in two ways.  `Context.json` is an object with the fields `kind`,
`path` and `is_dir`, in this order and without blanks; it exists only for a
path that is text.  `Context.line` is for people: the kind, padded to eight
columns and coloured, then the path, a directory with a slash behind it.
-/

namespace ChangeWatch

/-- One observed change. -/
structure Context where
  kind : EventKind
  path : Path
  isDir : Bool
  deriving DecidableEq, Repr, Inhabited

namespace Context

/-- A change of a path, as the disk shows the path now. -/
def observe (disk : Disk) (kind : EventKind) (path : Path) : Context :=
  ⟨kind, path, disk.isDir path⟩

def jsonBool (b : Bool) : List Char :=
  if b then "true".toList else "false".toList

/-- The JSON object of a change, as characters; `none` when the path is no
text. -/
def jsonChars (c : Context) : Option (List Char) :=
  (Utf8.decode? c.path.bytes).map fun path =>
    "\x7b\"kind\":".toList ++ Text.jsonString c.kind.word.toList ++
      ",\"path\":".toList ++ Text.jsonString path ++
      ",\"is_dir\":".toList ++ jsonBool c.isDir ++ "\x7d".toList

/-- The JSON object of a change; `none` when the path is no text. -/
def json (c : Context) : Option String :=
  c.jsonChars.map String.ofList

/-- What is said of a path that cannot be written as JSON. -/
def jsonRefusal : String :=
  "path contains invalid UTF-8 characters"

/-- The terminal colour of a kind: green, yellow, red, magenta. -/
def colour : EventKind → List Char
  | .create => "32".toList
  | .modify => "33".toList
  | .delete => "31".toList
  | .overflow => "35".toList

def paddedWord (k : EventKind) : List Char :=
  let word := k.word.toList
  word ++ List.replicate (8 - word.length) ' '

def lineChars (c : Context) : List Char :=
  "\x1b[".toList ++ colour c.kind ++ 'm' :: (paddedWord c.kind ++ "\x1b[39m ".toList) ++
    Utf8.lossyChars c.path.bytes ++ (if c.isDir then ['/'] else [])

/-- The line of a change, for people. -/
def line (c : Context) : String :=
  String.ofList c.lineChars

end Context

end ChangeWatch
