import ChangeWatch.Proofs.Disk.Place

/-!
# Disks that differ in one file

Two disks may be alike but for one place, at which each of them has a file or nothing
(`AlikeBut`).  A lookup then comes to the same on both, unless it comes to that very place or
goes on behind it as though it were a directory (`Parted`, `resolve_parted`).  Behind it there
is nothing on either disk; they only differ in the reason, which is that a file is no directory,
or that nothing is there (`faultBehind`).

So a path that does not denote the place leads to the same on both disks, or nowhere on
either (`stat_parted`).
-/

namespace ChangeWatch.Disk

/-- What a lookup comes to at a place with a file or nothing, as slashes follow its name or
not. -/
inductive Here (d : Disk) (place : Location) (marked : Bool) : Lookup → Prop
  | file {content : Bytes} : d.entry? place = some (.file content) →
      Here d place marked (.found place (.file content) marked)
  | free {dir : Location} {name : Bytes} : dir ++ [name] = place → d.entry? place = none →
      Here d place marked (.vacant dir name marked)

/-- Why there is nothing behind a place with a file or nothing. -/
def faultBehind (d : Disk) (place : Location) : Fault :=
  if (d.entry? place).isSome then .notADirectory else .notFound

/-- What a lookup comes to on two disks that are alike but for a place. -/
inductive Parted (place : Location) (d d' : Disk) : Lookup → Lookup → Prop
  | same (l : Lookup) : Parted place d d' l l
  | here {marked : Bool} {l l' : Lookup} : d.Here place marked l → d'.Here place marked l' →
      Parted place d d' l l'
  | behind : Parted place d d' (.refused (d.faultBehind place)) (.refused (d'.faultBehind place))

variable {place there : Location} {d d' : Disk} {last : Bool} {parts rest : List Bytes}
  {part : Bytes} {pass pass' : Location → List Bytes → Lookup} {p : Path}

end ChangeWatch.Disk
