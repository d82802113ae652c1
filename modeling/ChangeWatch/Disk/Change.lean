import ChangeWatch.Disk.Edit

/-!
# What an act changes, place by place

An act on the disk comes to a sequence of changes of single entries:
directories appear one by one from the top down, a file appears and is then
altered if it has contents, an existing file is altered when it is emptied and
again when it is filled, and a directory vanishes after everything in it.
-/

namespace ChangeWatch

inductive Change where
  | appeared (place : Location)
  | altered (place : Location)
  | vanished (place : Location)
  | moved (source target : Location)
  deriving DecidableEq, Repr

namespace Disk

/-- The locations that are on one disk and not on another, in the order in which
they stand on the first. -/
def onlyOn (d other : Disk) : List Location :=
  (d.entries.map (·.1)).filter fun place => (other.entry? place).isNone

/-- A file altered by contents, if there are any. -/
def filled (place : Location) (content : Bytes) : List Change :=
  if content = [] then [] else [.altered place]

/-- The changes that an act came to, from the disks before and after it. -/
def changesOf (before after : Disk) : Act → List Change
  | .write p content =>
    match before.stat p, after.stat p with
    | .ok (place, .file _), _ => .altered place :: filled place content
    | .error _, .ok (place, .file _) =>
      (after.onlyOn before).map .appeared ++ filled place content
    | _, _ => (after.onlyOn before).map .appeared
  | .rename p q =>
    match before.slot p, before.slot q with
    | .ok source, .ok target =>
      if before = after then [] else [.moved source.place target.place]
    | _, _ => []
  | .remove _ =>
    ((before.onlyOn after).mergeSort fun a b => decide (b ≤ a)).map .vanished
  | _ => (after.onlyOn before).map .appeared

/-- The disk after some acts, and the changes that they came to. -/
def actsWithChanges (d : Disk) (acts : List Act) : Disk × List Change :=
  acts.foldl (fun (d, changes) a => (d.act a, changes ++ changesOf d (d.act a) a)) (d, [])

end Disk

end ChangeWatch
