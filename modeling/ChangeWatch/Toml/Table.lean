import ChangeWatch.Toml.Value

/-!
# Putting tables together

A document says where each value belongs by dotted keys and by headers.  A
key is given a value once; a dotted key opens tables on its way, and may go on
only through tables that dotted keys or mere mention opened; a header names
a table that has none of its own yet, or adds one to a list of tables.
-/

namespace ChangeWatch.Toml

/-- A key. -/
abbrev Name := List Char

namespace Fields

def get? (fields : Fields) (key : Name) : Option Value :=
  fields.lookup key

def add (fields : Fields) (key : Name) (v : Value) : Fields :=
  fields ++ [(key, v)]

/-- Gives an existing key another value, in its place. -/
def set (fields : Fields) (key : Name) (v : Value) : Fields :=
  fields.map fun (k, old) => if k = key then (k, v) else (k, old)

def erase (fields : Fields) (key : Name) : Fields :=
  fields.filter fun (k, _) => k ≠ key

/-- Gives the value of a dotted key to a table; `here` tells whether the last
part may stand in this very table. -/
def assign (fields : Fields) (here : Bool) : List Name → Value → Option Fields
  | [], _ => none
  | [key], v =>
    if here && (fields.get? key).isNone then some (fields.add key v) else none
  | key :: rest, v =>
    match fields.get? key with
    | none => (assign [] true rest v).map fun inner => fields.add key (.table .dotted inner)
    | some (.table .dotted inner) =>
      (assign inner true rest v).map fun inner => fields.set key (.table .dotted inner)
    | some (.table .implied inner) =>
      (assign inner false rest v).map fun inner => fields.set key (.table .implied inner)
    | some (.tables items) =>
      (assign (items.getLast?.getD []) false rest v).map fun inner =>
        fields.set key (.tables (items.dropLast ++ [inner]))
    | some _ => none

/-- Gives values to keys, one after the other. -/
def assignAll (fields : Fields) (pairs : List (List Name × Value)) : Option Fields :=
  pairs.foldlM (fun fields (key, v) => fields.assign true key v) fields

/-- Changes the table that the leading parts of a header name. -/
def within (fields : Fields) (change : Fields → Option Fields) : List Name → Option Fields
  | [] => change fields
  | key :: rest =>
    match fields.get? key with
    | none => (within [] change rest).map fun inner => fields.add key (.table .implied inner)
    | some (.table .inline _) => none
    | some (.table form inner) =>
      (within inner change rest).map fun inner => fields.set key (.table form inner)
    | some (.tables items) =>
      (within (items.getLast?.getD []) change rest).map fun inner =>
        fields.set key (.tables (items.dropLast ++ [inner]))
    | some _ => none

/-- Adds the table of a header; one that was only implied so far is taken up. -/
def addTable (key : Name) (pairs : List (List Name × Value)) (fields : Fields) : Option Fields :=
  match fields.get? key with
  | none => (assignAll [] pairs).map fun own => fields.add key (.table .headed own)
  | some (.table .implied inner) =>
    (assignAll inner pairs).map fun own => (fields.erase key).add key (.table .headed own)
  | some _ => none

/-- Adds the table of a header in double brackets. -/
def appendTable (key : Name) (pairs : List (List Name × Value)) (fields : Fields) :
    Option Fields :=
  match fields.get? key with
  | none => (assignAll [] pairs).map fun own => fields.add key (.tables [own])
  | some (.tables items) =>
    (assignAll [] pairs).map fun own => fields.set key (.tables (items ++ [own]))
  | some _ => none

end Fields

/-- A header and what stands below it. -/
structure Section where
  /-- Whether the header is in double brackets. -/
  listed : Bool
  path : List Name
  pairs : List (List Name × Value)

/-- Adds a section to a document. -/
def Fields.addSection (fields : Fields) (s : Section) : Option Fields :=
  match s.path.reverse with
  | [] => none
  | key :: before =>
    fields.within (if s.listed then appendTable key s.pairs else addTable key s.pairs)
      before.reverse

end ChangeWatch.Toml
