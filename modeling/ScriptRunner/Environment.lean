import ScriptRunner.Table
import ScriptRunner.Text.Quoted
import ScriptRunner.Value

/-!
# Environments

The bindings of the units of an evaluation, one namespace for each unit. A bare name means a binding
of the unit itself or of one of its direct imports; a name with its unit in front means a binding of
any unit that has been entered.

## Main definitions

* `Namespace`, `Environment` - the bindings of a unit, and of all units.
* `Environment.enter`, `Environment.bind` - changes.
* `Environment.lookup`, `Environment.member` - the meaning of a bare name and of a name with its
  unit.
* `UnitFault`, `ReferenceFault` - wrong uses of an environment, and names without a meaning.
-/

namespace ScriptRunner

/-- The bindings of a unit in the order in which they were first made. -/
abbrev Namespace := Table String Value

/-- The bindings of all units that have been entered, in the order of entry, and the direct imports
of each unit. -/
structure Environment where
  dependencies : Table String (List String)
  namespaces : Table String Namespace

/-- A use of an environment that no script can bring about. -/
inductive UnitFault where
  | enteredTwice (unit : String)
  | notEntered (unit : String)
  deriving DecidableEq, Repr

def UnitFault.message : UnitFault → String
  | enteredTwice unit => s!"Unit evaluated twice: {unit}"
  | notEntered unit => Text.quoted unit

def UnitFault.kind : UnitFault → String
  | enteredTwice _ => "RuntimeError"
  | notEntered _ => "KeyError"

/-- Why a name has no meaning. -/
inductive ReferenceFault where
  | unresolved (name : String)
  | unresolvedMember (owner name : String)
  /-- The unit is known but has not been entered. -/
  | notInitialized (owner : String)
  | unknownOwner (owner : String)
  deriving DecidableEq, Repr

def ReferenceFault.message : ReferenceFault → String
  | unresolved name => s!"Unresolved reference: {name}"
  | unresolvedMember owner name => s!"Unresolved reference: {owner}.{name}"
  | notInitialized owner => s!"Script '{owner}' is not initialized yet"
  | unknownOwner owner => s!"Unresolved reference: {owner}"

/-- Why a bare name has no meaning. -/
inductive LookupFault where
  | unit (fault : UnitFault)
  | reference (fault : ReferenceFault)
  deriving DecidableEq, Repr

namespace Environment

/-- The environment in which no unit has been entered. -/
def start (dependencies : Table String (List String)) : Environment := ⟨dependencies, .empty⟩

def enter (env : Environment) (unit : String) : Except UnitFault Environment :=
  if env.namespaces.contains unit then .error (.enteredTwice unit)
  else .ok { env with namespaces := env.namespaces.insert unit .empty }

/-- Bind a name in a unit. The second part of the answer says that the unit had a binding of that
name before. -/
def bind (env : Environment) (unit name : String) (value : Value) :
    Except UnitFault (Environment × Bool) :=
  match env.namespaces.find? unit with
  | none => .error (.notEntered unit)
  | some own =>
    .ok ({ env with namespaces := env.namespaces.insert unit (own.insert name value) },
      own.contains name)

/-- The binding of a name in the first unit of a list that has one. -/
def firstBinding (env : Environment) (name : String) (units : List String) : Option Value :=
  units.findSome? fun unit => (env.namespaces.find? unit).bind (·.find? name)

def importsOf (env : Environment) (unit : String) : List String :=
  (env.dependencies.find? unit).getD []

/-- The meaning of a bare name in a unit: the unit's own binding, else that of the first of its
direct imports that has one. -/
def lookup (env : Environment) (unit name : String) : Except LookupFault Value :=
  match env.namespaces.find? unit with
  | none => .error (.unit (.notEntered unit))
  | some own =>
    match own.find? name with
    | some value => .ok value
    -- Imports that have not been entered count as imports without bindings.
    | none =>
      match env.firstBinding name (env.importsOf unit) with
      | some value => .ok value
      | none => .error (.reference (.unresolved name))

def member (env : Environment) (owner name : String) : Except ReferenceFault Value :=
  match env.namespaces.find? owner with
  | none =>
    if env.dependencies.contains owner then .error (.notInitialized owner)
    else .error (.unknownOwner owner)
  | some own =>
    match own.find? name with
    | some value => .ok value
    | none => .error (.unresolvedMember owner name)

end Environment

end ScriptRunner
