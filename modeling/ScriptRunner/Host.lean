import ScriptRunner.Interpreter
import ScriptRunner.Resolution

/-!
# The host

From the path of a root script to the result of its evaluation: resolution, request, one call of the
engine, and the report of what went wrong.

## Main definitions

* `Host`, `Host.standard` - the settings, the source of directives and the engine.
* `Host.resolve`, `Host.compile`, `Host.evaluate`, `Host.evaluateOrFail` - the stages, each with
  the ones before it.
* `Failure`, `Failure.verdict` - why there is no successful evaluation, and how that is reported.
* `Event` - what happens in a host.
* `Host.run` - the exit code and the report.
-/

namespace ScriptRunner

/-- What a host works with. -/
structure Host where
  settings : Settings := {}
  extractor : Extractor
  engine : Engine

/-- A host with the usual settings. Imports are read from the scripts, and what scripts print goes
to the terminal. -/
def Host.standard [CharacterNames] : Host where
  extractor := Extractor.annotations
  engine := Interpreter.engine .utf8

/-- Why there is no successful evaluation, by the stage that failed. -/
inductive Failure where
  | resolution (failure : ResolutionFailure)
  | request (fault : RequestFault)
  | engine (failure : EngineFailure)
  /-- The evaluation has diagnostics that are failures. -/
  | unsuccessful (diagnostics : List Diagnostic)
  deriving DecidableEq, Repr

/-- How a failure is reported. -/
inductive Verdict where
  /-- With the diagnostics of an evaluation. -/
  | diagnosed (diagnostics : List Diagnostic)
  /-- As a problem of the scripts and their imports. -/
  | unresolved (message : String) (location : Option Location)
  /-- As a file that cannot be read. -/
  | unreadable (message : String)
  /-- As a failure of the engine, of some kind. -/
  | engineFailed (kind message : String)
  deriving DecidableEq, Repr

/-- The verdict on a read error. Only what the disk holds makes a file unreadable. -/
def ReadError.verdict : ReadError → Verdict
  | file fault path => .unreadable (fault.message path)
  | undecodable (.malformed fault) => .unreadable fault.message
  | undecodable (.failed kind message) => .engineFailed kind message

def GraphFault.kind : GraphFault → String
  | collision _ _ _ => "NameCollisionError"
  | alreadyPresent _ | rename _ _ _ => "ValueError"
  | absent _ => "KeyError"
  | frozen => "RuntimeError"

def GraphFault.verdict (fault : GraphFault) : Verdict :=
  match fault with
  | collision _ _ _ => .unresolved fault.message none
  | _ => .engineFailed fault.kind fault.message

def ResolutionFailure.verdict : ResolutionFailure → Verdict
  | unreadable error => error.verdict
  | graph fault => fault.verdict
  | tooDeep => .engineFailed "RecursionError" tooDeep.message
  | failure => .unresolved failure.message failure.location

def RequestFault.verdict : RequestFault → Verdict
  | notFrozen => .engineFailed "ValueError" notFrozen.message
  | graph fault => fault.verdict

def EngineFailure.verdict : EngineFailure → Verdict
  | unresolved message location => .unresolved message location
  | diagnosed diagnostics => .diagnosed diagnostics
  | unreadable _ message => .unreadable message
  | other kind message => .engineFailed kind message

/-- How a failure is reported. -/
def Failure.verdict : Failure → Verdict
  | resolution failure => failure.verdict
  | request fault => fault.verdict
  | engine failure => failure.verdict
  | unsuccessful diagnostics => .diagnosed diagnostics

/-- What happens in a host. -/
inductive Event where
  | resolution (event : ResolutionEvent)
  /-- A request is complete. -/
  | requested (root : String) (imports : List String)
  /-- The engine is called with a request for these units. -/
  | invoked (units : List String)
  | engine (event : EngineEvent)
  /-- An engine of some name fails in a way that is not the fault of the scripts. -/
  | engineFailed (name : String)
  /-- A diagnostic of a successful evaluation. -/
  | relayed (diagnostic : Diagnostic)
  deriving DecidableEq, Repr

namespace Event

def channel : String := "scripthost.compiler.driver"

def record? : Event → Option LogRecord
  | resolution event => event.record?
  | requested root imports =>
    some ⟨.debug, channel, s!"Request for {root}: imports {Text.quotedList imports}"⟩
  | invoked _ => none
  | engine event => event.record?
  | engineFailed name => some ⟨.error, channel, s!"Engine {name} failed"⟩
  | relayed d => some ⟨.debug, channel, s!"{d.severity.text}: {d.message}"⟩

def asksFor? : Event → Option Path
  | resolution event => event.asksFor?
  | _ => none

/-- The event of the engine that an event is, if it is one. -/
def engine? : Event → Option EngineEvent
  | engine event => some event
  | _ => none

def records (events : List Event) : List LogRecord :=
  events.filterMap record?

/-- The text that scripts print in the course of events. -/
def scriptOutput (events : List Event) : ScriptText :=
  printedText (events.filterMap engine?)

end Event

namespace Verdict

def diagnostics : Verdict → List Diagnostic
  | diagnosed ds => ds
  | unresolved message location => [⟨.fatal, message, location⟩]
  | unreadable message => [⟨.fatal, s!"Cannot read script: {message}", none⟩]
  | engineFailed kind message => [⟨.fatal, s!"Script engine failed: {kind}: {message}", none⟩]

/-- What goes to the log with a verdict on an engine of some name. -/
def events (engine : String) : Verdict → List Event
  | engineFailed _ _ => [.engineFailed engine]
  | _ => []

end Verdict

/-- The end of a run: what happened, the report of what went wrong, and the exit code. -/
structure Run where
  events : List Event
  report : String
  code : Nat
  deriving Inhabited

abbrev Hosting := Traced Event Failure

namespace Host

def resolve (host : Host) (files : FileSystem) (root : String) : Hosting ImportGraph :=
  let resolver : Resolver := ⟨host.settings, host.extractor, files⟩
  ((resolver.resolve root).mapEvents .resolution).mapError .resolution

def compile (host : Host) (files : FileSystem) (root : String) : Hosting Request := do
  let graph ← host.resolve files root
  let request ← .ofExcept ((Request.ofGraph graph).mapError .request)
  .emit (.requested request.root.name request.importNames)
  return request

/-- The evaluation of a root script. The engine is called once. -/
def evaluate (host : Host) (files : FileSystem) (root : String) : Hosting Evaluation := do
  let request ← host.compile files root
  .emit (.invoked (request.units.map (·.name)))
  ((host.engine.evaluate request).mapEvents .engine).mapError .engine

def evaluateOrFail (host : Host) (files : FileSystem) (root : String) : Hosting Evaluation := do
  let evaluation ← host.evaluate files root
  if evaluation.success then return evaluation else .fail (.unsuccessful evaluation.diagnostics)

/-- A run of a root script. A success is silent; a failure is reported and has the exit code 1. -/
def run (host : Host) (files : FileSystem) (root : String) : Run :=
  let evaluation := host.evaluateOrFail files root
  match evaluation.outcome with
  | .ok result => ⟨evaluation.events ++ result.diagnostics.map .relayed, "", 0⟩
  | .error failure =>
    let verdict := failure.verdict
    ⟨evaluation.events ++ verdict.events host.engine.name, printed verdict.diagnostics, 1⟩

end Host

end ScriptRunner
