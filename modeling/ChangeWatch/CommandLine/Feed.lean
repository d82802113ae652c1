import ChangeWatch.CommandLine.Reader
import ChangeWatch.Disk.Edit

/-!
# A disk told line by line

The program watches a disk that it is told of.  A feed is lines of text: the
fields of a line are parted by tabs, the first one says what happens, and an
empty line parts what is there before the watch begins from what happens while
it is on.

    dir     PATH          make a directory and those above it
    file    PATH [TEXT]   write a file
    link    PATH TARGET   make a symbolic link
    remove  PATH          remove an entry and all below it
    rename  PATH TARGET   rename an entry
    wait    MS            let time pass
-/

namespace ChangeWatch

/-- What a line of a feed says. -/
inductive Happening where
  | act (a : Disk.Act)
  | wait (millis : Nat)
  | gap
  deriving DecidableEq, Repr

namespace Happening

/-- What the fields of a line say, if they say anything. -/
def ofFields? : List String → Option Happening
  | [""] => some .gap
  | ["dir", p] => some (.act (.makeDirs (.ofString p)))
  | ["file", p] => some (.act (.write (.ofString p) []))
  | ["file", p, text] => some (.act (.write (.ofString p) (Utf8.ofString text)))
  | ["link", p, target] => some (.act (.makeLink (.ofString p) (.ofString target)))
  | ["remove", p] => some (.act (.remove (.ofString p)))
  | ["rename", p, target] => some (.act (.rename (.ofString p) (.ofString target)))
  | ["wait", ms] => (CommandLine.number? ms.toList).map .wait
  | _ => none

/-- What a line says, if it says anything. -/
def ofLine? (line : String) : Option Happening :=
  ofFields? (line.splitOn "\t")

end Happening

end ChangeWatch
