import ScriptRunner.ImportGraph.Order

/-!
# Evaluation requests

What an engine gets: the units of a complete graph in an order in which imports come first, with the
names of each unit's direct imports.

## Main definitions

* `ScriptUnit`, `Request` - a script with its name, and the units of an evaluation.
* `Request.ofGraph` - the request for a graph.
-/

namespace ScriptRunner

/-- A script to be evaluated under its symbol name. -/
structure ScriptUnit where
  path : Path
  name : String
  text : String
  deriving DecidableEq, Repr

namespace ScriptUnit

def ofNode (n : ScriptNode) : ScriptUnit := ⟨n.path, n.name, n.source⟩

def description (u : ScriptUnit) : String :=
  s!"ScriptSource(name={Text.quoted u.name}, path={u.path})"

end ScriptUnit

/-- The units of an evaluation: the root script, the other scripts in the order in which they are
evaluated, and the names of the direct imports of each. -/
structure Request where
  root : ScriptUnit
  imports : List ScriptUnit
  dependencies : Table String (List String)

namespace Request

/-- All units in the order of evaluation, the root last. -/
def units (r : Request) : List ScriptUnit := r.imports ++ [r.root]

def importNames (r : Request) : List String := r.imports.map (·.name)

end Request

/-- Why there is no request for a graph. -/
inductive RequestFault where
  | notFrozen
  | graph (fault : GraphFault)
  deriving DecidableEq, Repr

def RequestFault.message : RequestFault → String
  | notFrozen => "Compilation requests are built from a completed resolution"
  | graph fault => fault.message

namespace Request

/-- The name of a script and the names of its imports. -/
def dependency (g : ImportGraph) (n : ScriptNode) : Except GraphFault (String × List String) := do
  return (n.name, (← g.importsOf n).map (·.name))

def ofGraph (g : ImportGraph) : Except RequestFault Request :=
  if !g.frozen then .error .notFrozen
  else
    match g.rootNode, g.evaluationOrder with
    | .error fault, _ | _, .error fault => .error (.graph fault)
    | .ok root, .ok order =>
      match order.mapM (dependency g) with
      | .error fault => .error (.graph fault)
      | .ok dependencies =>
        .ok ⟨.ofNode root, order.dropLast.map .ofNode, .ofList dependencies⟩

end Request

end ScriptRunner
