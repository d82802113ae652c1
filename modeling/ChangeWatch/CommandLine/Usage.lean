import ChangeWatch.CommandLine.Invocation

/-!
# What the program says of itself

The help text lists the commands and the options.  A command line that leads to
no command is answered with one sentence, and with the help text where the
sentence alone would not help.
-/

namespace ChangeWatch

def versionLine : String := "pw 0.1.0"

def usage : String :=
  "Usage: pw [OPTIONS] <COMMAND>\n\n" ++
    "Commands:\n" ++
    "  file <PATH>               watch one file\n" ++
    "  dir <PATH> [-d <DEPTH>]   watch a directory and those below it\n" ++
    "  config                    show the settings in effect\n\n" ++
    "Options:\n" ++
    "  --config <PATH>     read the settings from a file\n" ++
    "  --log-file <PATH>   write the log to a file\n" ++
    "  --delay-ms <MS>     gather modify changes for so long; 0 for not at all\n" ++
    "  --events <KINDS>    print these kinds only, with commas between them\n" ++
    "  --json              print changes as JSON\n" ++
    "  -v, --verbose       log in detail\n" ++
    "  -h, --help          show this text\n" ++
    "  -V, --version       show the version\n"

/-- The sentence that answers a command line without a command. -/
def Refusal.message : Refusal → String
  | .help | .nothingSaid => usage
  | .version => versionLine ++ "\n"
  | .noCommand => "a command is missing\n\n" ++ usage
  | .unknownCommand => "there is no such command\n\n" ++ usage
  | .unknownArgument => "there is no such argument here\n"
  | .missingArgument => "the path to watch is missing\n"
  | .noValue => "an option lacks its value\n"
  | .badValue => "a value is not of the sort wanted\n"
  | .notText => "a value is not text\n"
  | .repeated => "an option is given twice\n"
  | .unwantedValue => "an option takes no value\n"

end ChangeWatch
