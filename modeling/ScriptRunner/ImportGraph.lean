import ScriptRunner.Directive
import ScriptRunner.Text.Quoted

/-!
# Import graphs

The scripts reachable from a root script, each with its symbol name and the imports that exist. A
name belongs to one path, and a graph that is frozen does not change any more.

## Main definitions

* `ScriptNode` - one script of a graph.
* `ImportGraph` - the scripts by path, and the paths by name.
* `ImportGraph.add`, `ImportGraph.update`, `ImportGraph.freeze` - changes, and `GraphFault`, the
  reasons for which they are refused.
* `ImportGraph.node?`, `ImportGraph.byName?`, `ImportGraph.importsOf` - looking things up.
-/

namespace ScriptRunner

/-- A script of a graph: its normalized path, its symbol name, its text, its directives as declared,
and the paths of the imports that exist, without repetitions. -/
structure ScriptNode where
  path : Path
  name : String
  source : String
  directives : List Directive := []
  resolvedImports : List Path := []
  deriving DecidableEq, Repr

namespace ScriptNode

def summary (n : ScriptNode) : String :=
  s!"Script({n.name}, {n.resolvedImports.length} imports)"

def description (n : ScriptNode) : String :=
  let imports := Text.quotedList (n.resolvedImports.map Path.toString)
  s!"ScriptNode(name={Text.quoted n.name}, path={n.path}, imports={imports})"

end ScriptNode

/-- Why a graph refuses what it is asked. -/
inductive GraphFault where
  /-- Two paths have one name. -/
  | collision (name : String) (existing incoming : Path)
  | alreadyPresent (path : Path)
  | rename (path : Path) (old new : String)
  | absent (path : Path)
  | frozen
  deriving DecidableEq, Repr

def GraphFault.message : GraphFault → String
  | collision name existing incoming =>
    s!"Symbol name '{name}' is derived from both {existing} and {incoming}"
  | alreadyPresent path => s!"Script already in graph: {path}"
  | rename path old new => s!"Cannot rename {path} from {old} to {new}"
  | absent path => s!"Script not in graph: {path}"
  | frozen => "Resolution graph is frozen"

/-- The scripts reachable from a root: the nodes by their paths and the paths by their names, both
in the order in which the scripts came in. -/
structure ImportGraph where
  root : Path
  nodes : Table Path ScriptNode
  names : Table String Path
  frozen : Bool

namespace ImportGraph

def empty (root : Path) : ImportGraph := ⟨root, .empty, .empty, false⟩

def size (g : ImportGraph) : Nat := g.nodes.size

def node? (g : ImportGraph) (path : Path) : Option ScriptNode := g.nodes.find? path

def contains (g : ImportGraph) (path : Path) : Bool := g.nodes.contains path

def byName? (g : ImportGraph) (name : String) : Option ScriptNode :=
  (g.names.find? name).bind g.node?

def node (g : ImportGraph) (path : Path) : Except GraphFault ScriptNode :=
  match g.node? path with
  | some n => .ok n
  | none => .error (.absent path)

def rootNode (g : ImportGraph) : Except GraphFault ScriptNode := g.node g.root

/-- The scripts that a node imports, in order. -/
def importsOf (g : ImportGraph) (n : ScriptNode) : Except GraphFault (List ScriptNode) :=
  n.resolvedImports.mapM g.node

/-- Put a node and its name into both tables. -/
def store (g : ImportGraph) (n : ScriptNode) : ImportGraph :=
  { g with nodes := g.nodes.insert n.path n, names := g.names.insert n.name n.path }

/-- Another path has the name of a node. -/
def collision? (g : ImportGraph) (n : ScriptNode) : Option Path :=
  (g.names.find? n.name).filter (· ≠ n.path)

/-- Add a script that is not in the graph. -/
def add (g : ImportGraph) (n : ScriptNode) : Except GraphFault ImportGraph :=
  if g.frozen then .error .frozen
  else
    match g.collision? n with
    | some existing => .error (.collision n.name existing n.path)
    | none => if g.contains n.path then .error (.alreadyPresent n.path) else .ok (g.store n)

/-- Replace a script by one with the same path and name. -/
def update (g : ImportGraph) (n : ScriptNode) : Except GraphFault ImportGraph :=
  if g.frozen then .error .frozen
  else
    match g.node? n.path with
    | none => .error (.absent n.path)
    | some current =>
      if current.name ≠ n.name then .error (.rename n.path current.name n.name)
      else .ok { g with nodes := g.nodes.insert n.path n }

def freeze (g : ImportGraph) : ImportGraph := { g with frozen := true }

def namesByPath (g : ImportGraph) : List (Path × String) :=
  g.nodes.entries.map fun entry => (entry.1, entry.2.name)

def description (g : ImportGraph) : String :=
  s!"ResolutionGraph(root={g.root}, nodes={Text.quotedList g.names.keys})"

end ImportGraph

end ScriptRunner
