import ChangeWatch.CommandLine.Reader
import ChangeWatch.Settings.Load
import ChangeWatch.Watch.Builder
import ChangeWatch.Watch.Running

/-!
# The program behind the command line

An invocation is carried out in an `Environment`, a disk and the directory of
configuration files.  First the log file is opened, then the settings are read,
and after that the command does its own work: `config` shows the settings, and
the other two set up a watch.

Settings come from the file that was asked for, which must be there, or else
from the usual place, where a file may be missing; a delay on the command line
goes before that of the file.

The wording of failures is in `Failure.message`, and what is shown is in
`listing` and `printed?`.
-/

namespace ChangeWatch

/-- Where an invocation is carried out. -/
structure Environment where
  disk : Disk
  configDir : Option Path
  deriving DecidableEq, Repr

namespace Environment

/-- The directory of configuration files, from where the user keeps them and
from the home directory; the former only counts if absolute. -/
def configDirOf (chosen home : Option Path) : Option Path :=
  chosen.filter Path.isAbsolute <|> home.map fun h => h.join (.ofString ".config")

/-- The usual place of the settings file. -/
def settingsPath? (env : Environment) : Option Path :=
  env.configDir.map fun dir => (dir.join (.ofString "pathwatch")).join (.ofString "config.toml")

end Environment

inductive Failure where
  | settings (path : Path) (cause : WatchError)
  | rendering
  | logPath (path : Path)
  | logDirectory (cause : Fault)
  | setUp (cause : WatchError)
  | startUp (cause : WatchError)
  deriving DecidableEq, Repr

def Failure.message : Failure → String
  | .settings p _ => "Failed to load settings from " ++ p.display
  | .rendering => "Failed to render settings"
  | .logPath p => "Invalid log file path: " ++ p.display
  | .logDirectory _ => "Failed to create log directory"
  | .setUp _ => "Failed to set up watcher"
  | .startUp _ => "Failed to start watcher"

/-- What a failure goes back to. -/
def Failure.cause? : Failure → Option String
  | .settings _ cause | .setUp cause | .startUp cause => some cause.message
  | .logDirectory fault => some fault.message
  | .rendering | .logPath _ => none

/-- What became of an invocation. -/
inductive Outcome where
  | finished (output : String)
  /-- It failed, and may have printed something before. -/
  | failed (output : String) (failure : Failure)
  /-- It ended where it could not even complain. -/
  | crashed
  | watching (r : Running)

namespace Outcome

def exitCode? : Outcome → Option Nat
  | .finished _ => some 0
  | .failed .. => some 1
  | .crashed => some 101
  | .watching _ => none

def output : Outcome → String
  | .finished s => s
  | .failed s _ => s
  | .crashed | .watching _ => ""

/-- What is complained of. -/
def complaint? : Outcome → Option String
  | .failed _ f => some ("Error: " ++ f.message)
  | _ => none

end Outcome

namespace CommandLine

/-! ### Settings -/

def settingsOf (env : Environment) (inv : Invocation) : Except Failure Settings :=
  let chosen : Except Failure Settings :=
    match inv.config, env.settingsPath? with
    | some p, _ => (Settings.load env.disk p).mapError (.settings p)
    | none, some p => (Settings.loadOrDefault env.disk p).mapError (.settings p)
    | none, none => .ok .default
  chosen.map fun s => { s with delayMs := inv.delayMs.getD s.delayMs }

/-! ### What is shown -/

def bold (s : String) : String := "\x1b[1m" ++ s ++ "\x1b[0m"

def dim (s : String) : String := "\x1b[2m" ++ s ++ "\x1b[0m"

/-- The lines of a listing that say where the settings are from. -/
def locationLines (env : Environment) (source : Option Path) : String :=
  match source with
  | some p =>
    let place := dim "Location" ++ ": " ++ dim p.display
    if env.disk.exists? p then place ++ "\n\n"
    else place ++ " " ++ dim "(not found, using defaults)" ++ "\n\n"
  | none => dim "(no config directory, using defaults)" ++ "\n\n"

def remarks : String :=
  "\n" ++ bold "Notes:" ++ "\n  delay_ms: 0 disables debouncing\n" ++
    "  max_depth: 0 watches only the directory's own entries\n"

def listing (env : Environment) (inv : Invocation) (s : Settings) : Outcome :=
  let top := bold "Watch Settings" ++ "\n" ++
    locationLines env (inv.config <|> env.settingsPath?)
  match s.document? with
  | none => .failed top .rendering
  | some document => .finished (top ++ String.ofList document ++ remarks)

/-- The line that a change is printed as; no JSON stands for a path that is no
text. -/
def printed? (json : Bool) (c : Context) : Option String :=
  if json then c.json else some c.line

/-- The lines that a journal comes to. -/
def lines (json : Bool) (j : Journal) : List String :=
  j.notes.filterMap fun
    | .ran _ c => printed? json c
    | _ => none

/-- The line that says what is being watched. -/
def watchingLine (w : Watch) : String :=
  bold "Watching" ++ " " ++ w.root.display ++ " " ++ dim "(Ctrl-C to stop)"

/-! ### Watching -/

def printer : Callback := ⟨0⟩

def printing : Behaviour Wish := fun _ _ _ => .none

def builderOf (inv : Invocation) (s : Settings) (subject : Subject) : Builder :=
  (Builder.new subject).applyAll
    (.withSettings s :: .manner .pooled :: inv.events.map fun k => .on k printer)

/-- What a command is to watch, if anything, given the settings in effect. -/
def subjectOf (s : Settings) : Command → Option Subject
  | .file p => some (.file p)
  | .dir p depth => some (.dir p (depth.getD s.maxDepth))
  | .config => none

def watch (fuel : Nat) (env : Environment) (inv : Invocation) (s : Settings) (subject : Subject) :
    Outcome × Disk :=
  match (builderOf inv s subject).build env.disk with
  | (.error e, disk) => (.failed "" (.setUp e), disk)
  | (.ok w, disk) =>
    let r := (Running.ofWatch w).start printing fuel
    match r.state.desk.journal.startError? with
    | some e => (.failed "" (.startUp e), disk)
    | none => (.watching r, disk)

/-! ### The whole -/

/-- What opening the log file comes to. -/
inductive Logging where
  | ready
  | failed (failure : Failure)
  /-- The file cannot be opened, for which there is no message. -/
  | crashed
  deriving DecidableEq, Repr

/-- Opens the log file, whose directory is made when missing. -/
def openLog (disk : Disk) (p : Path) : Logging × Disk :=
  match p.fileName with
  | none => (.failed (.logPath p), disk)
  | some name =>
    let dir := FileTarget.directoryOf p
    match disk.createDirAll dir with
    | (.error f, disk) => (.failed (.logDirectory f), disk)
    | (.ok (), disk) =>
      -- the name has to be text; the directory is made all the same
      if (Utf8.decode? name).isNone then (.crashed, disk)
      else
        match disk.touch (dir.child name) with
        | (.ok (), disk) => (.ready, disk)
        | (.error _, disk) => (.crashed, disk)

def carryOut (fuel : Nat) (env : Environment) (inv : Invocation) : Outcome × Disk :=
  match settingsOf env inv with
  | .error failure => (.failed "" failure, env.disk)
  | .ok s =>
    match subjectOf s inv.command with
    | some subject => watch fuel env inv s subject
    | none => (listing env inv s, env.disk)

def run (fuel : Nat) (env : Environment) (inv : Invocation) : Outcome × Disk :=
  match inv.logFile with
  | none => carryOut fuel env inv
  | some p =>
    match openLog env.disk p with
    | (.ready, disk) => carryOut fuel { env with disk } inv
    | (.failed failure, disk) => (.failed "" failure, disk)
    | (.crashed, disk) => (.crashed, disk)

end CommandLine

end ChangeWatch
