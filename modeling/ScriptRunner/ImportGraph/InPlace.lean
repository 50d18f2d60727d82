import ScriptRunner.ImportGraph

/-!
# Graphs that are changed in place

The changes of a graph as they are carried out on a graph that is kept: one check after the other,
then one table after the other. A change that is refused leaves whatever has been written before the
check that refuses it. Every check comes before the first write, so nothing has been written by
then, and changing a graph in place comes to the same as making the changed graph.

## Main definitions

* `ImportGraph.InPlace` - programs that change a graph and may be refused.
* `InPlace.add`, `InPlace.update`, `InPlace.freeze` - the changes.

## Main statements

* `InPlace.run_add`, `InPlace.run_update` - a change in place makes the changed graph, or leaves the
  graph as it was.
-/

namespace ScriptRunner

namespace ImportGraph

/-- Programs that change a graph. A fault ends a program and keeps what has been written so far. -/
abbrev InPlace := EStateM GraphFault ImportGraph

namespace InPlace

def requireMutable : InPlace Unit := do
  if (← get).frozen then throw .frozen

/-- Write a node into the table of nodes. -/
def writeNode (n : ScriptNode) : InPlace Unit :=
  modify fun g => { g with nodes := g.nodes.insert n.path n }

/-- Write the name of a node into the table of names. -/
def writeName (n : ScriptNode) : InPlace Unit :=
  modify fun g => { g with names := g.names.insert n.name n.path }

/-- Add a script that is not in the graph. -/
def add (n : ScriptNode) : InPlace Unit := do
  requireMutable
  if let some existing := (← get).collision? n then
    throw (.collision n.name existing n.path)
  if (← get).contains n.path then
    throw (.alreadyPresent n.path)
  writeNode n
  writeName n

/-- Replace a script by one with the same path and name. -/
def update (n : ScriptNode) : InPlace Unit := do
  requireMutable
  match (← get).node? n.path with
  | none => throw (.absent n.path)
  | some current =>
    if current.name ≠ n.name then
      throw (.rename n.path current.name n.name)
    writeNode n

def freeze : InPlace Unit :=
  modify ImportGraph.freeze

/-- What a program comes to that either puts the changed graph in place or leaves the graph as it
was. -/
def ofOutcome (g : ImportGraph) :
    Except GraphFault ImportGraph → EStateM.Result GraphFault ImportGraph Unit
  | .ok g' => .ok () g'
  | .error fault => .error fault g

/-- Nothing has been written when an addition is refused. -/
theorem run_add (n : ScriptNode) (g : ImportGraph) : (add n).run g = ofOutcome g (g.add n) := by
  unfold add requireMutable ImportGraph.add
  cases hfrozen : g.frozen with
  | true => simp [hfrozen, ofOutcome]
  | false =>
    cases hcollision : g.collision? n with
    | some existing => simp [hfrozen, hcollision, ofOutcome]
    | none =>
      cases hcontains : g.contains n.path with
      | true => simp [hfrozen, hcollision, hcontains, ofOutcome]
      | false =>
        simp [hfrozen, hcollision, hcontains, ofOutcome, writeNode, writeName, store]

/-- Nothing has been written when an update is refused. -/
theorem run_update (n : ScriptNode) (g : ImportGraph) :
    (update n).run g = ofOutcome g (g.update n) := by
  unfold update requireMutable ImportGraph.update
  cases hfrozen : g.frozen with
  | true => simp [hfrozen, ofOutcome]
  | false =>
    cases hnode : g.node? n.path with
    | none => simp [hfrozen, hnode, ofOutcome]
    | some current =>
      by_cases hname : current.name = n.name <;>
        simp [hfrozen, hnode, hname, ofOutcome, writeNode]

theorem run_freeze (g : ImportGraph) : freeze.run g = .ok () g.freeze :=
  rfl

end InPlace

end ImportGraph

end ScriptRunner
