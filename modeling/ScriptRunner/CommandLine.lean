import ScriptRunner.Host
import ScriptRunner.Text.UpperCase

/-!
# The command line

One argument: the path of the root script. An environment variable chooses how much goes to the log.

## Main definitions

* `CommandLine.scriptArgument?` - the script that the arguments name.
* `CommandLine.threshold` - the least rank of the records that the log shows.
* `CommandLine.execute` - the exit code and the texts of both output streams.
-/

namespace ScriptRunner.CommandLine

/-- The environment variable that chooses how much goes to the log. -/
def levelVariable : String := "SCRIPTHOST_LOG_LEVEL"

/-- What is printed for arguments that do not name one script. -/
def usage : String := "Usage: scripthost /path/to/script"

/-- Arguments without the first `--`, which only says that no options follow. There are no options,
so every other argument counts. -/
def operands : List String → List String
  | [] => []
  | argument :: rest => if argument = "--" then rest else argument :: operands rest

/-- The script that the arguments name, if they name exactly one. -/
def scriptArgument? (arguments : List String) : Option String :=
  match operands arguments with
  | [script] => some script
  | _ => none

def thresholds : List (String × Nat) :=
  [("CRITICAL", 50), ("FATAL", 50), ("ERROR", 40), ("WARNING", 30), ("WARN", 30), ("INFO", 20),
    ("DEBUG", 10), ("NOTSET", 0)]

/-- The threshold of the log unless a known one is asked for. -/
def usualThreshold : Nat := LogLevel.warning.rank

/-- The threshold that is asked for by its name, in letters of any case. -/
def threshold (level : Option String) : Nat :=
  (level.bind fun name => thresholds.lookup (Text.upperCaseText name)).getD usualThreshold

structure Result where
  code : Nat
  output : ScriptText
  log : String
  deriving DecidableEq, Repr

/-- The run of the script that the arguments name, or nothing if they do not name one. Reports show
the script's path without empty pieces and without `.`. -/
def run? [CharacterNames] (files : FileSystem) (arguments : List String) : Option Run :=
  (scriptArgument? arguments).map fun script =>
    Host.standard.run files (Path.ofString script).toString

/-- What a command leaves behind after its run, if there was one: the lines of the scripts and then
the report, and the log. -/
def finish (level : Option String) : Option Run → Result
  | none => ⟨1, .ofString (usage ++ "\n"), ""⟩
  | some run =>
    ⟨run.code, Event.scriptOutput run.events ++ .ofString run.report,
      linesText (logLines (threshold level) (Event.records run.events))⟩

def execute [CharacterNames] (files : FileSystem) (level : Option String)
    (arguments : List String) : Result :=
  finish level (run? files arguments)

end ScriptRunner.CommandLine
