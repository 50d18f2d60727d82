import ScriptRunner.Diagnostic
import ScriptRunner.Environment
import ScriptRunner.Request
import ScriptRunner.Text.Encoding
import ScriptRunner.Traced

/-!
# Engines

What evaluates a request, seen from outside: it ends in an evaluation with diagnostics, or it fails.

## Main definitions

* `Evaluation` - the diagnostics, bindings, printed lines and value of an evaluation.
* `EngineFailure` - how an engine can fail.
* `EngineEvent`, `printedText` - what happens in an engine, and the text that scripts print.
* `OutputStream`, `OutputStream.carry` - where scripts print, and what becomes of an evaluation
  whose lines go there one by one.
* `Engine` - a name and a function on requests.
-/

namespace ScriptRunner

/-- What an evaluation comes to. -/
structure Evaluation where
  diagnostics : List Diagnostic := []
  namespaces : Table String Namespace := .empty
  output : List ScriptText := []
  value : Option Value := none

namespace Evaluation

/-- An evaluation is successful if no diagnostic is a failure. -/
def success (e : Evaluation) : Bool := !hasFailure e.diagnostics

def description (e : Evaluation) : String :=
  let success := if e.success then "True" else "False"
  let units := Text.quotedList e.namespaces.keys
  s!"EvaluationResult(success={success}, diagnostics={e.diagnostics.length}, units={units})"

end Evaluation

/-- How an engine fails instead of coming to an evaluation. -/
inductive EngineFailure where
  /-- The engine finds that the scripts cannot be resolved. -/
  | unresolved (message : String) (location : Option Location)
  | diagnosed (diagnostics : List Diagnostic)
  | unreadable (kind message : String)
  | other (kind message : String)
  deriving DecidableEq, Repr

/-- What happens in an engine. -/
inductive EngineEvent where
  | started (unit : String) (path : Path)
  | printed (line : ScriptText)
  /-- The engine is done with so many of its units. -/
  | finished (entered total : Nat)
  deriving DecidableEq, Repr

namespace EngineEvent

def channel : String := "scripthost.runtime.engine"

def record? : EngineEvent → Option LogRecord
  | started unit path => some ⟨.debug, channel, s!"Running {unit} ({path})"⟩
  | printed _ => none
  | finished entered total =>
    some ⟨.debug, channel, s!"Evaluated {entered} of {total} unit(s)"⟩

/-- The line that an event prints, if it does. -/
def printedLine? : EngineEvent → Option ScriptText
  | printed line => some line
  | _ => none

end EngineEvent

def printedLines (events : List EngineEvent) : List ScriptText :=
  events.filterMap EngineEvent.printedLine?

def printedText (events : List EngineEvent) : ScriptText :=
  .ofLines (printedLines events)

@[simp] theorem printedLines_append (xs ys : List EngineEvent) :
    printedLines (xs ++ ys) = printedLines xs ++ printedLines ys :=
  List.filterMap_append

/-- What comes of a request in an engine. -/
abbrev Evaluating := Traced EngineEvent EngineFailure Evaluation

/-- A stream that scripts print to: for a line that it does not take, the failure that it raises. -/
structure OutputStream where
  refusal? : ScriptText → Option EngineFailure

namespace OutputStream

/-- A stream that encodes texts in UTF-8. -/
def utf8 : OutputStream :=
  ⟨fun line => (Text.encodeFault? line).map fun fault => .other "UnicodeEncodeError" fault.message⟩

/-- What happens up to the first line that a stream does not take, and how it fails then. -/
def firstRefusal? (stream : OutputStream) :
    List EngineEvent → Option (List EngineEvent × EngineFailure)
  | [] => none
  | event :: events =>
    match event.printedLine?.bind stream.refusal? with
    | some failure => some ([], failure)
    | none => (stream.firstRefusal? events).map fun r => (event :: r.1, r.2)

/-- An evaluation whose lines go to a stream as soon as they are complete. No engine handles a
failure of its stream, so the first line that is not taken ends everything. -/
def carry (stream : OutputStream) (evaluating : Evaluating) : Evaluating :=
  match stream.firstRefusal? evaluating.events with
  | none => evaluating
  | some (events, failure) => ⟨events, .error failure⟩

end OutputStream

/-- An engine: its name, and what comes of a request. -/
structure Engine where
  name : String
  evaluate : Request → Evaluating

end ScriptRunner
