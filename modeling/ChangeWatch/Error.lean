import ChangeWatch.Disk.Fault
import ChangeWatch.Path
import ChangeWatch.Settings.Basic

/-!
# What can go wrong

`BackendError` is a complaint of the notification backend about some paths.
`WatchError` is what building, starting and registering may end in, one
constructor per cause; the wording is all in `WatchError.message`.  What goes
wrong inside a running watch is no error of it but a `Warning` in its log.
-/

namespace ChangeWatch

/-- What the notification backend complains of. -/
inductive BackendCause where
  | generic (text : String)
  | io (fault : Fault)
  | pathNotFound
  | watchNotFound
  | watchLimit
  deriving DecidableEq, Repr, Inhabited

/-- A complaint of the notification backend, and the paths that it concerns. -/
structure BackendError where
  cause : BackendCause
  paths : List Path
  deriving DecidableEq, Repr, Inhabited

def BackendCause.message : BackendCause → String
  | .generic text => text
  | .io fault => fault.message
  | .pathNotFound => "No path was found."
  | .watchNotFound => "No watch was found."
  | .watchLimit => "OS file watch limit reached."

def BackendError.message (e : BackendError) : String :=
  if e.paths.isEmpty then e.cause.message
  else e.cause.message ++ " about [" ++ ", ".intercalate (e.paths.map Path.quoted) ++ "]"

/-- Why something could not be built, started or registered. -/
inductive WatchError where
  /-- A watch without any callback. -/
  | noCallback
  /-- A delay of zero where debouncing was asked for. -/
  | zeroDelay
  | namesNoFile (path : Path)
  | zeroPollInterval
  /-- A delay beyond what the clock can count to. -/
  | delayOutOfRange (delay : Duration)
  | misconfigured (text : String)
  /-- A directory stands where a file is to be watched. -/
  | directoryGiven (path : Path)
  | notADirectory (path : Path)
  | alreadyStarted
  | alreadyStopped
  | illegalState (text : String)
  | io (path : Path) (fault : Fault)
  | backend (error : BackendError)
  | closed
  | schedulerShutDown
  | settings (problem : SettingsProblem)
  deriving DecidableEq, Repr

inductive ErrorClass where
  | config
  | illegalState
  | io
  | backend
  | closed
  | schedulerShutDown
  | settings
  deriving DecidableEq, Repr

namespace WatchError

def errorClass : WatchError → ErrorClass
  | .noCallback | .zeroDelay | .namesNoFile _ | .zeroPollInterval | .delayOutOfRange _
  | .misconfigured _ => .config
  | .directoryGiven _ | .notADirectory _ | .alreadyStarted | .alreadyStopped
  | .illegalState _ => .illegalState
  | .io .. => .io
  | .backend _ => .backend
  | .closed => .closed
  | .schedulerShutDown => .schedulerShutDown
  | .settings _ => .settings

/-- What the message of a class begins with. -/
def heading : ErrorClass → String
  | .config => "Invalid watcher configuration: "
  | .illegalState => "Illegal watcher state: "
  | .io => "I/O error on "
  | .backend => "Notification backend error: "
  | .closed => "Watch service is closed"
  | .schedulerShutDown => "Scheduler has been shut down"
  | .settings => "Failed to parse settings: "

/-- What a message says of its cause. -/
def detail : WatchError → String
  | .noCallback => "at least one callback must be configured"
  | .zeroDelay => "delay must be greater than zero; use without_debounce() to disable"
  | .namesNoFile p => p.display ++ " does not name a file"
  | .zeroPollInterval => "poll_interval_ms must be greater than zero"
  | .delayOutOfRange d => "delay " ++ d.brief ++ " is out of range"
  | .misconfigured text | .illegalState text => text
  | .directoryGiven p => p.display ++ " is a directory, expected a file"
  | .notADirectory p => p.display ++ " is not a directory"
  | .alreadyStarted => "watcher has already been started"
  | .alreadyStopped => "watcher has already been stopped"
  | .io p fault => p.display ++ ": " ++ fault.message
  | .backend e => e.message
  | .closed | .schedulerShutDown => ""
  | .settings problem => problem.message

def message (e : WatchError) : String :=
  heading e.errorClass ++ e.detail

end WatchError

/-- What a running watch notes in its log. -/
inductive Warning where
  /-- A callback that ran on the loop panicked. -/
  | callbackPanicked
  /-- A callback that ran after its delay panicked. -/
  | modifyPanicked
  /-- The scheduler refused a debounced dispatch. -/
  | unscheduled
  /-- The strategy panicked over an event. -/
  | eventPanicked
  /-- A new directory could not be registered. -/
  | unregistered
  | backendError
  /-- The watch service could not be closed properly. -/
  | unclosed
  | unreadableEntry
  /-- A new directory could not be listed. -/
  | unlistable
  deriving DecidableEq, Repr

def Warning.message : Warning → String
  | .callbackPanicked => "callback panicked"
  | .modifyPanicked => "modify callback panicked"
  | .unscheduled => "failed to schedule modify dispatch"
  | .eventPanicked => "event handling panicked, skipping event"
  | .unregistered => "failed to register new directory"
  | .backendError => "backend error, skipping iteration"
  | .unclosed => "failed to close watch service"
  | .unreadableEntry => "skipping unreadable entry"
  | .unlistable => "cannot list new directory"

end ChangeWatch
