import ScriptRunner.Engine

/-!
# The interpreter

The engine that walks the syntax trees of scripts. Problems of scripts become diagnostics in the
order in which they are met: two paths under one name, then all parse errors, then annotations that
mean nothing, then what happens while the units run, up to the first fault.

## Main definitions

* `Interpreter.eval` - the value of an expression.
* `Interpreter.State`, `Interpreter.execute`, `Interpreter.runStatements` - statements.
* `Interpreter.runUnits` - units, one after the other.
* `Interpreter.evaluate` - a request.
* `Interpreter.evaluateTo`, `Interpreter.engine` - a request whose scripts print to a stream.

## Design notes

A statement that fails leaves the state as it was before. The value of an evaluation is that of the
last unit that ran to its end. The interpreter handles no failure of the stream that scripts print
to, so such a failure is no fault of a statement: it ends the whole evaluation without a result.
-/

namespace ScriptRunner.Interpreter

open Script

/-- Why an expression or a statement has no value. -/
inductive Fault where
  | operator (fault : OperatorFault)
  | reference (fault : ReferenceFault)
  deriving DecidableEq, Repr

def Fault.message : Fault → String
  | operator fault => fault.message
  | reference fault => fault.message

/-- Why a unit breaks off: a fault at a place of the script, or a wrong use of the environment. -/
inductive Stop where
  | fault (fault : Fault) (span : Span)
  | misuse (fault : UnitFault)
  deriving DecidableEq, Repr

namespace Stop

def ofOperator (span : Span) (f : OperatorFault) : Stop := .fault (.operator f) span

def ofReference (span : Span) (f : ReferenceFault) : Stop := .fault (.reference f) span

def ofLookup (span : Span) : LookupFault → Stop
  | .unit f => .misuse f
  | .reference f => ofReference span f

end Stop

/-- The value of an expression of a unit. Operands are evaluated from left to right. -/
def eval (env : Environment) (unit : String) : Expr Value → Except Stop Value
  | .literal value _ => .ok value
  | .name name span => (env.lookup unit name).mapError (Stop.ofLookup span)
  | .member owner name span => (env.member owner name).mapError (Stop.ofReference span)
  | .negate operand span => do
    let value ← eval env unit operand
    (negate value).mapError (Stop.ofOperator span)
  | .binary op left right span => do
    let left ← eval env unit left
    let right ← eval env unit right
    (op.apply left right).mapError (Stop.ofOperator span)

/-- What has come of an evaluation so far. -/
structure State where
  environment : Environment
  output : List ScriptText := []
  diagnostics : List Diagnostic := []
  events : List EngineEvent := []

namespace State

def record (s : State) (event : EngineEvent) : State :=
  { s with events := s.events ++ [event] }

def report (s : State) (d : Diagnostic) : State :=
  { s with diagnostics := s.diagnostics ++ [d] }

def print (s : State) (line : ScriptText) : State :=
  { s.record (.printed line) with output := s.output ++ [line] }

end State

/-- The warning that a binding takes the place of another. -/
def rebindingWarning (unit name : String) (location : Location) : Diagnostic :=
  ⟨.warning, s!"{unit}: '{name}' is already defined, the new value replaces it", some location⟩

/-- A statement of a unit: the state after it, and its value if it is an expression. -/
def execute (unit file : String) (s : State) : Statement Value → Except Stop (State × Option Value)
  | .val name expr span => do
    let value ← eval s.environment unit expr
    let (environment, rebound) ← (s.environment.bind unit name value).mapError .misuse
    let s := { s with environment }
    let location := Location.ofSpan file span
    return (if rebound then s.report (rebindingWarning unit name location) else s, none)
  | .print expr span => do
    let value ← eval s.environment unit expr
    match value.text? with
    | some line => return (s.print line, none)
    | none => .error (Stop.ofOperator span .tooLong)
  | .expression expr _ => do
    let value ← eval s.environment unit expr
    return (s, some value)

/-- Statements of a unit: the state after them or before the one that stopped, and the value of the
last one if there is a last one, the value so far otherwise. -/
def runStatements (unit file : String) (s : State) (value : Option Value) :
    List (Statement Value) → State × Except Stop (Option Value)
  | [] => (s, .ok value)
  | statement :: rest =>
    match execute unit file s statement with
    | .error stop => (s, .error stop)
    | .ok (s, value) => runStatements unit file s value rest

/-- A unit with its script. -/
abbrev ParsedUnit := ScriptUnit × Program

/-- One unit: the state after it, and its value or why it broke off. -/
def runUnit (s : State) (u : ParsedUnit) : State × Except Stop (Option Value) :=
  match s.environment.enter u.1.name with
  | .error fault => (s, .error (.misuse fault))
  | .ok environment =>
    let s := { s with environment }.record (.started u.1.name u.1.path)
    runStatements u.1.name u.2.file s none u.2.statements

/-- Units one after the other, up to the first that breaks off. A fault is reported, and the value
so far stays. -/
def runUnits (s : State) (value : Option Value) :
    List ParsedUnit → State × Except UnitFault (Option Value)
  | [] => (s, .ok value)
  | u :: rest =>
    match runUnit s u with
    | (s, .ok value) => runUnits s value rest
    | (s, .error (.misuse fault)) => (s, .error fault)
    | (s, .error (.fault fault span)) =>
      let message := s!"{u.1.name}: {fault.message}"
      (s.report ⟨.error, message, some (Location.ofSpan u.2.file span)⟩, .ok value)

/-- The reports of units that have the name of an earlier unit at another path, after units with
given names and paths. -/
def nameReports (seen : Table String Path) : List ScriptUnit → List Diagnostic
  | [] => []
  | u :: rest =>
    match seen.find? u.name with
    | none => nameReports (seen.insert u.name u.path) rest
    | some path =>
      if path = u.path then nameReports seen rest
      else
        ⟨.fatal, s!"Duplicate compilation unit '{u.name}': {path} and {u.path}", none⟩ ::
          nameReports seen rest

/-- A unit and what comes of parsing its text. -/
abbrev ReadUnit := ScriptUnit × Except ParseError Program

variable [CharacterNames]

/-- Every unit with what comes of parsing its text. -/
def readUnits (units : List ScriptUnit) : List ReadUnit :=
  units.map fun u => (u, parse u.path.toString u.text)

/-- The report of a unit that is no script. -/
def parseReport? : ReadUnit → Option Diagnostic
  | (_, .error e) => some ⟨.error, e.message, e.location⟩
  | (_, .ok _) => none

/-- A unit with its script, if it is one. -/
def parsed? : ReadUnit → Option ParsedUnit
  | (_, .error _) => none
  | (u, .ok program) => some (u, program)

/-- The same units, all those of one name with the script of the last of them. -/
def shareByName (units : List ParsedUnit) : List ParsedUnit :=
  let programs : Table String Program := .ofList (units.map fun u => (u.1.name, u.2))
  units.map fun u => (u.1, (programs.find? u.1.name).getD u.2)

/-- The warning about an annotation, unless it declares an import in the header. -/
def annotationWarning? (p : Program) (a : Annotation) : Option Diagnostic :=
  let label := s!"@{a.target}:{a.name}"
  let place := some (p.locate a.span)
  if !a.isImport then some ⟨.warning, s!"Unknown annotation {label} is ignored", place⟩
  else if !a.inHeader then
    some ⟨.warning, s!"{label} after the first statement is ignored", place⟩
  else none

def annotationWarnings (p : Program) : List Diagnostic :=
  p.annotations.filterMap (annotationWarning? p)

/-- The evaluation of units that are all scripts. -/
def runAll (dependencies : Table String (List String)) (units : List ParsedUnit) : Evaluating :=
  let start : State :=
    { environment := .start dependencies
      diagnostics := units.flatMap fun u => annotationWarnings u.2 }
  match runUnits start none units with
  | (s, .error fault) => ⟨s.events, .error (.other fault.kind fault.message)⟩
  | (s, .ok value) =>
    let namespaces := s.environment.namespaces
    ⟨s.events ++ [.finished namespaces.size units.length],
      .ok { diagnostics := s.diagnostics, namespaces, output := s.output, value }⟩

/-- What comes of a request if every line that is printed is taken. -/
def evaluate (request : Request) : Evaluating :=
  let units := request.units
  match nameReports .empty units with
  | d :: ds => ⟨[], .ok { diagnostics := d :: ds }⟩
  | [] =>
    let read := readUnits units
    match read.filterMap parseReport? with
    | d :: ds => ⟨[], .ok { diagnostics := d :: ds }⟩
    | [] => runAll request.dependencies (shareByName (read.filterMap parsed?))

/-- What comes of a request whose scripts print to a stream. -/
def evaluateTo (stream : OutputStream) (request : Request) : Evaluating :=
  stream.carry (evaluate request)

def engine (stream : OutputStream) : Engine := ⟨"InterpreterEngine", evaluateTo stream⟩

end ScriptRunner.Interpreter
