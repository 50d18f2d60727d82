/-!
# The log

Messages about what happens on the way to a result, each with a level and the channel that it comes
from.

## Main definitions

* `LogLevel`, `LogRecord` - how important a message is, and a message for the log.
* `logLines` - the lines that show records above a threshold.
* `linesText` - lines as they are written.
-/

namespace ScriptRunner

/-- How important a log record is. -/
inductive LogLevel where
  | debug
  | warning
  | error
  deriving DecidableEq, Repr

def LogLevel.name : LogLevel → String
  | debug => "DEBUG"
  | warning => "WARNING"
  | error => "ERROR"

/-- The rank of a level among the thresholds of a log. -/
def LogLevel.rank : LogLevel → Nat
  | debug => 10
  | warning => 30
  | error => 40

/-- A message for the log, with the channel that it comes from. -/
structure LogRecord where
  level : LogLevel
  channel : String
  message : String
  deriving DecidableEq, Repr

/-- The line that shows a record. -/
def LogRecord.line (r : LogRecord) : String :=
  s!"{r.level.name} {r.channel}: {r.message}"

/-- The lines that show the records whose level reaches a threshold. -/
def logLines (threshold : Nat) (records : List LogRecord) : List String :=
  (records.filter fun r => threshold ≤ r.level.rank).map LogRecord.line

/-- The text of lines, each with a line feed behind it. -/
def linesText (lines : List String) : String :=
  String.join (lines.map (· ++ "\n"))

end ScriptRunner
