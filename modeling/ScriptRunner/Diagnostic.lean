import ScriptRunner.Source

/-!
# Diagnostics

Reports about a script: how severe, what, and where. A list of diagnostics is a failure as soon as
one of them is, and only then it is printed, in the order of production.

## Main definitions

* `Severity`, `Severity.isFailure`.
* `Diagnostic`, `Diagnostic.line` - one report and the line that shows it.
* `hasFailure`, `failureCount` - what a list of reports amounts to.
* `report`, `printed` - the failure report of a list, and what is printed of it.
-/

namespace ScriptRunner

/-- How severe a report is, the most severe first. -/
inductive Severity where
  | fatal
  | error
  | warning
  | info
  | debug
  deriving DecidableEq, Repr

namespace Severity

/-- A failure stops an evaluation from counting as successful. -/
def isFailure : Severity → Bool
  | fatal | error => true
  | _ => false

def text : Severity → String
  | fatal => "FATAL"
  | error => "ERROR"
  | warning => "WARNING"
  | info => "INFO"
  | debug => "DEBUG"

/-- Every severity, the most severe first. -/
def all : List Severity := [fatal, error, warning, info, debug]

def ofText? (s : String) : Option Severity :=
  all.find? (·.text == s)

end Severity

/-- One report, with its place if it has one. -/
structure Diagnostic where
  severity : Severity
  message : String
  location : Option Location := none
  deriving DecidableEq, Repr

/-- The line of the failure report that shows a diagnostic. -/
def Diagnostic.line (d : Diagnostic) : String :=
  s!" - [{d.severity.text}] {d.message}"

def hasFailure (ds : List Diagnostic) : Bool :=
  ds.any (·.severity.isFailure)

def failures (ds : List Diagnostic) : List Diagnostic :=
  ds.filter (·.severity.isFailure)

def failureCount (ds : List Diagnostic) : Nat :=
  (failures ds).length

def reportHeader : String := "Script evaluation failed:"

/-- The failure report: the header, then one line for each diagnostic. -/
def report (ds : List Diagnostic) : String :=
  "\n".intercalate (reportHeader :: ds.map Diagnostic.line)

/-- What is printed for a list of diagnostics: the report and a line feed if there is a failure,
nothing otherwise. -/
def printed (ds : List Diagnostic) : String :=
  if hasFailure ds then report ds ++ "\n" else ""

theorem failureCount_eq_zero_iff (ds : List Diagnostic) :
    failureCount ds = 0 ↔ hasFailure ds = false := by
  simp [failureCount, failures, hasFailure, List.filter_eq_nil_iff]

/-- The message of a failed evaluation: how many failures its diagnostics hold. -/
def failureSummary (ds : List Diagnostic) : String :=
  match failureCount ds with
  | 1 => "Script evaluation failed with 1 error"
  | n => s!"Script evaluation failed with {n} errors"

end ScriptRunner
