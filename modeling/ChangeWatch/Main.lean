import ChangeWatch.CommandLine.Feed
import ChangeWatch.CommandLine.Program
import ChangeWatch.CommandLine.Usage

/-!
# The program

Reads the feed up to its first empty line, which describes the disk, carries
out the command line on that disk, and follows the rest of the feed for as long
as the watch is on.  The end of the feed interrupts it.
-/

namespace ChangeWatch.Main

/-- How many steps the threads of a watch make at most between two lines. -/
def fuel : Nat := 1000000

/-- The next line of a feed without its line break, unless the feed has ended. -/
def nextLine? (input : IO.FS.Stream) : IO (Option String) := do
  let line ← input.getLine
  if line.isEmpty then return none
  return some (String.ofList (line.toList.filter (· ≠ '\n')))

/-- What happens next, unless the feed has ended; a line that says nothing is
complained of and passed over. -/
partial def next? (input errors : IO.FS.Stream) : IO (Option Happening) := do
  match ← nextLine? input with
  | none => return none
  | some line =>
    match Happening.ofLine? line with
    | some happening => return some happening
    | none =>
      errors.putStrLn ("Passed over: " ++ line)
      next? input errors

/-- The disk that the first part of a feed describes. -/
partial def describedDisk (input errors : IO.FS.Stream) (disk : Disk) : IO Disk := do
  match ← next? input errors with
  | some (.act a) => describedDisk input errors (disk.act a)
  | some (.wait _) => describedDisk input errors disk
  | some .gap | none => return disk

def after (happening : Happening) (r : Running) : Running :=
  match happening with
  | .act a => r.act CommandLine.printing fuel [a]
  | .wait millis =>
    r.elapse CommandLine.printing fuel
      (r.state.desk.now + (Duration.ofMillis millis).nanoseconds)
  | .gap => r

/-- Follows the feed to its end, and prints what the watch prints; so many lines
are printed already. -/
partial def followFeed (input output errors : IO.FS.Stream) (json : Bool) (shown : Nat)
    (r : Running) : IO Unit := do
  let lines := CommandLine.lines json r.state.desk.journal
  for line in lines.drop shown do
    output.putStrLn line
  output.flush
  match ← next? input errors with
  | some happening => followFeed input output errors json lines.length (after happening r)
  | none => return

/-- The directory of configuration files that the environment of the program
names. -/
def configDir? : IO (Option Path) := do
  let chosen ← IO.getEnv "XDG_CONFIG_HOME"
  let home ← IO.getEnv "HOME"
  return Environment.configDirOf (chosen.map .ofString) (home.map .ofString)

/-- Carries out what is asked for, and yields the exit code. -/
def carryOut (input output errors : IO.FS.Stream) (inv : Invocation) : IO Nat := do
  let disk ← describedDisk input errors .empty
  let (outcome, _) := CommandLine.run fuel ⟨disk, ← configDir?⟩ inv
  output.putStr outcome.output
  match outcome with
  | .failed _ failure =>
    errors.putStrLn ("Error: " ++ failure.message)
    for cause in failure.cause?.toList do
      errors.putStrLn ("\nCaused by:\n    " ++ cause)
  | .watching r =>
    errors.putStrLn (CommandLine.watchingLine r.state)
    followFeed input output errors inv.json 0 r
  | _ => pure ()
  return outcome.exitCode?.getD 0

/-- Reads the command line and carries it out, and yields the exit code. -/
def program (args : List String) : IO Nat := do
  let output ← IO.getStdout
  let errors ← IO.getStderr
  match CommandLine.read (args.map Utf8.ofString) with
  | .error refusal =>
    (if refusal.isAnswer then output else errors).putStr refusal.message
    return refusal.exitCode
  | .ok inv => carryOut (← IO.getStdin) output errors inv

end ChangeWatch.Main

def main (args : List String) : IO UInt32 := do
  return UInt32.ofNat (← ChangeWatch.Main.program args)
