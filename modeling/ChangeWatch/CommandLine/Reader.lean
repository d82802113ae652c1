import ChangeWatch.CommandLine.Invocation

/-!
# Reading a command line

Arguments are read one by one, first at the top level, and from the command on
at the level of that command.  `--name` and `--name=value` are long options,
`-x` is a cluster of short ones, the last of which may have its value attached;
after a lone `--` everything is an operand.

A value that follows its option as an argument of its own is only kept
(`Scan.held`) and looked at when the next thing is stored or when the level
ends, whereas an attached value is looked at right away.  So an unknown
argument is complained of before the value in front of it.

An option that may stand at both levels counts as given where it stands last;
only twice at one level is too often, except for the list of kinds, which
grows.
-/

namespace ChangeWatch.CommandLine

/-! ### Names -/

/-- What takes a value. -/
inductive Slot where
  | config
  | logFile
  | delayMs
  | events
  | depth
  /-- The path behind a command. -/
  | path
  deriving DecidableEq, Repr

/-- What takes no value. -/
inductive Switch where
  | json
  | verbose
  | help
  | version
  deriving DecidableEq, Repr

inductive Opt where
  | valued (slot : Slot)
  | plain (switch : Switch)
  deriving DecidableEq, Repr

/-- Where options are read. -/
inductive Level where
  | top
  | file
  | dir
  | config
  deriving DecidableEq, Repr

/-- The long names known at every level. -/
def commonNames : List (String × Opt) :=
  [("config", .valued .config), ("log-file", .valued .logFile), ("delay-ms", .valued .delayMs),
    ("events", .valued .events), ("json", .plain .json), ("verbose", .plain .verbose),
    ("help", .plain .help)]

def Level.longNames : Level → List (String × Opt)
  | .top => commonNames ++ [("version", .plain .version)]
  | .dir => commonNames ++ [("depth", .valued .depth)]
  | _ => commonNames

def Level.shortNames : Level → List (Char × Opt)
  | .top => [('v', .plain .verbose), ('h', .plain .help), ('V', .plain .version)]
  | .dir => [('v', .plain .verbose), ('h', .plain .help), ('d', .valued .depth)]
  | _ => [('v', .plain .verbose), ('h', .plain .help)]

def Level.long? (l : Level) (name : Bytes) : Option Opt :=
  (l.longNames.find? fun entry => Utf8.ofString entry.1 = name).map (·.2)

def Level.short? (l : Level) (c : UInt8) : Option Opt :=
  (l.shortNames.find? fun entry => entry.1.toNat = c.toNat).map (·.2)

/-- The levels to which commands lead, by their names. -/
def commandNames : List (String × Level) :=
  [("file", .file), ("dir", .dir), ("config", .config)]

def commandLevel? (name : Bytes) : Option Level :=
  (commandNames.find? fun entry => Utf8.ofString entry.1 = name).map (·.2)

/-- Whether an argument is the command that shows help. -/
def isHelp (name : Bytes) : Bool :=
  name = Utf8.ofString "help"

/-! ### Values -/

/-- What was given at one level. -/
structure Given where
  config : Option Path
  logFile : Option Path
  delayMs : Option Nat
  events : Option (List EventKind)
  depth : Option Nat
  path : Option Path
  json : Bool
  verbose : Bool
  deriving DecidableEq, Repr

def Given.none : Given := ⟨.none, .none, .none, .none, .none, .none, false, false⟩

def readText (v : Bytes) : Except Refusal (List Char) :=
  match Utf8.decode? v with
  | some cs => .ok cs
  | none => .error .notText

/-- The number that some digits stand for. -/
def digits? (cs : List Char) : Option Nat :=
  if cs.isEmpty || !cs.all Char.isDigit then none
  else some (cs.foldl (fun n c => n * 10 + (c.toNat - '0'.toNat)) 0)

/-- The least number that is too great for a value, two to the power of 64. -/
def numberLimit : Nat := 18446744073709551616

/-- A number below the limit in base ten; it may have a plus sign and leading
zeros. -/
def number? : List Char → Option Nat
  | '+' :: cs => (digits? cs).filter (· < numberLimit)
  | cs => (digits? cs).filter (· < numberLimit)

def readNumber (v : Bytes) : Except Refusal Nat := do
  let cs ← readText v
  match number? cs with
  | some n => .ok n
  | none => .error .badValue

def readPath (v : Bytes) : Except Refusal Path :=
  if v = [] then .error .noValue else .ok ⟨v⟩

def readKind (v : Bytes) : Except Refusal EventKind := do
  let cs ← readText v
  match EventKind.ofSpelling? (String.ofList cs) with
  | some k => .ok k
  | none => .error .badValue

/-- A value that is to be kinds of change, with commas between them. -/
def readKinds (v : Bytes) : Except Refusal (List EventKind) :=
  (v.splitOn 0x2C).mapM readKind

/-- Refuses what is there already. -/
def once {α : Type} (old : Option α) : Except Refusal Unit :=
  if old.isSome then .error .repeated else .ok ()

namespace Given

/-- What is given once a slot has one more value. -/
def store (g : Given) (v : Bytes) : Slot → Except Refusal Given
  | .config => do
    once g.config
    return { g with config := some (← readPath v) }
  | .logFile => do
    once g.logFile
    return { g with logFile := some (← readPath v) }
  | .delayMs => do
    once g.delayMs
    return { g with delayMs := some (← readNumber v) }
  | .depth => do
    once g.depth
    return { g with depth := some (← readNumber v) }
  | .path => do
    once g.path
    return { g with path := some (← readPath v) }
  | .events => do
    return { g with events := some (g.events.getD [] ++ (← readKinds v)) }

def set (g : Given) : Switch → Except Refusal Given
  | .json => if g.json then .error .repeated else .ok { g with json := true }
  | .verbose => if g.verbose then .error .repeated else .ok { g with verbose := true }
  | .help => .error .help
  | .version => .error .version

def isEmpty (g : Given) : Bool :=
  g = .none

end Given

/-! ### The state of reading -/

/-- What was read of one level. -/
structure Scan where
  given : Given
  /-- A slot whose value is not looked at yet, and that value if it was read. -/
  held : Option (Slot × Option Bytes)
  operandsOnly : Bool
  deriving DecidableEq, Repr

namespace Scan

def start : Scan := ⟨.none, none, false⟩

/-- The slot that takes the next argument as its value. -/
def awaiting? (s : Scan) : Option Slot :=
  match s.held with
  | some (slot, none) => some slot
  | _ => none

def settle (s : Scan) : Except Refusal Scan :=
  match s.held with
  | none => .ok s
  | some (_, none) => .error .noValue
  | some (slot, some v) => do return { s with given := ← s.given.store v slot, held := none }

/-- Holds a slot, once what was held is looked at. -/
def hold (s : Scan) (slot : Slot) (v : Option Bytes) : Except Refusal Scan := do
  return { ← s.settle with held := some (slot, v) }

def attach (s : Scan) (slot : Slot) (v : Bytes) : Except Refusal Scan := do
  let s ← s.settle
  return { s with given := ← s.given.store v slot }

def flip (s : Scan) (switch : Switch) : Except Refusal Scan := do
  let s ← s.settle
  return { s with given := ← s.given.set switch }

/-- Reads a long option, its name and the value attached to it. -/
def readLong (l : Level) (name : Bytes) (value : Option Bytes) (s : Scan) : Except Refusal Scan :=
  match l.long? name, value with
  | none, _ => .error .unknownArgument
  | some (.valued slot), some v => s.attach slot v
  | some (.valued slot), none => s.hold slot none
  | some (.plain _), some _ => .error .unwantedValue
  | some (.plain switch), none => s.flip switch

/-- Reads a cluster of short options. -/
def readShorts (l : Level) : Bytes → Scan → Except Refusal Scan
  | [], s => .ok s
  | c :: rest, s =>
    match l.short? c with
    | none => .error .unknownArgument
    | some (.plain switch) => do readShorts l rest (← s.flip switch)
    | some (.valued slot) =>
      match rest with
      | [] => s.hold slot none
      | 0x3D :: v => s.attach slot v
      | v => s.attach slot v

end Scan

/-! ### Arguments -/

/-- What an argument looks like. -/
inductive Shape where
  | divider
  | long (name : Bytes) (value : Option Bytes)
  | shorts (names : Bytes)
  | operand
  deriving DecidableEq, Repr

def dash : UInt8 := 0x2D

/-- A long option's name and the value behind its first `=`. -/
def splitValue (arg : Bytes) : Bytes × Option Bytes :=
  match arg.dropWhile (· ≠ 0x3D) with
  | [] => (arg, none)
  | _ :: v => (arg.takeWhile (· ≠ 0x3D), some v)

/-- What an argument looks like; a lone dash is an operand. -/
def shape : Bytes → Shape
  | [0x2D, 0x2D] => .divider
  | 0x2D :: 0x2D :: rest =>
    let (name, value) := splitValue rest
    .long name value
  | 0x2D :: c :: rest => .shorts (c :: rest)
  | _ => .operand

/-- Reads an argument that is neither an option nor a value; only the first one
behind a command that wants a path has a place. -/
def readOperand (l : Level) (arg : Bytes) (s : Scan) : Except Refusal Scan :=
  let taken := s.given.path.isSome || s.held.any fun h => h.1 = .path
  match l with
  | .file | .dir => if taken then .error .unknownArgument else s.hold .path (some arg)
  | .config => .error .unknownArgument
  | .top =>
    if s.operandsOnly && ((commandLevel? arg).isSome || isHelp arg) then .error .unknownArgument
    else .error .unknownCommand

/-- Reads one argument that is no command. -/
def readArgument (l : Level) (arg : Bytes) (s : Scan) : Except Refusal Scan :=
  if s.operandsOnly then readOperand l arg s
  else
    match shape arg with
    | .divider => .ok { s with operandsOnly := true }
    | .long name value => s.readLong l name value
    | .shorts names => s.readShorts l names
    | .operand =>
      -- a value is only kept; it is looked at later
      match s.awaiting? with
      | some slot => .ok { s with held := some (slot, some arg) }
      | none => readOperand l arg s

/-- Reads the arguments behind a command. -/
def readCommand (l : Level) (args : List Bytes) : Except Refusal Given := do
  let s ← args.foldlM (fun s arg => readArgument l arg s) Scan.start
  let g := (← s.settle).given
  match l with
  | .file | .dir => if g.path.isNone then .error .missingArgument else .ok g
  | _ => .ok g

/-- Shows the help of a command, if what follows `help` names one. -/
def readHelp : List Bytes → Refusal
  | [] => .help
  | name :: rest =>
    if rest.isEmpty && ((commandLevel? name).isSome || isHelp name) then .help else .unknownCommand

/-- Reads the arguments up to the command, and from there on at its level: what
was given at either level, and the command's level if there is one. -/
def readTop : Scan → List Bytes → Except Refusal (Given × Option (Level × Given))
  | s, [] => do return ((← s.settle).given, none)
  | s, arg :: rest =>
    if s.operandsOnly || s.awaiting?.isSome then do
      readTop (← readArgument .top arg s) rest
    else if isHelp arg then .error (readHelp rest)
    else
      match commandLevel? arg with
      | some l => do
        -- what is held at the top is looked at last of all
        let inner ← readCommand l rest
        return ((← s.settle).given, some (l, inner))
      | none => do readTop (← readArgument .top arg s) rest

/-- The command that was given at a level. -/
def commandOf (l : Level) (g : Given) : Command :=
  match l, g.path with
  | .file, some p => .file p
  | .dir, some p => .dir p g.depth
  | _, _ => .config

/-- Joins what was given before the command and behind it. -/
def assemble (outer : Given) (l : Level) (inner : Given) : Invocation where
  command := commandOf l inner
  config := inner.config <|> outer.config
  logFile := inner.logFile <|> outer.logFile
  delayMs := inner.delayMs <|> outer.delayMs
  events := (inner.events <|> outer.events).getD EventKind.all
  json := inner.json || outer.json
  verbose := inner.verbose || outer.verbose

def read (args : List Bytes) : Except Refusal Invocation := do
  match ← readTop .start args with
  | (outer, some (l, inner)) => return assemble outer l inner
  | (outer, none) => if outer.isEmpty then .error .nothingSaid else .error .noCommand

end ChangeWatch.CommandLine
