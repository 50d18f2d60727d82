import ScriptRunner.FileSystem
import ScriptRunner.ImportGraph
import ScriptRunner.SymbolName
import ScriptRunner.Traced

/-!
# Resolution of imports

From the path of a root script to the graph of all scripts that it reaches. The walk is depth-first
in the order of the directives, and a script enters the graph before its imports are looked at, so
scripts that import each other come to an end.

## Main definitions

* `Settings` - what a resolution depends on besides the files.
* `ResolutionFailure` - why there is no graph.
* `ResolutionEvent` - what happens on the way.
* `Resolver.visit`, `Resolver.follow` - one script, and the directives of one script.
* `Resolver.resolve` - the graph of a root script.

## Design notes

Each step of the walk into an import enters one more file into the graph, so no walk goes deeper
than there are files: the capacity of the file system bounds its depth.
-/

namespace ScriptRunner

/-- What a resolution depends on besides the files. -/
structure Settings where
  naming : Naming := Naming.standard
  /-- A directive that leads to no file is a failure; otherwise it is skipped. -/
  strictImports : Bool := false
  /-- The name of the encoding of scripts. -/
  encoding : String := "utf-8"
  /-- What the system knows of encodings. -/
  codecs : Text.Codecs := .standard

/-- The codec of scripts. -/
def Settings.codec (s : Settings) : Text.Codec := s.codecs s.encoding

/-- Why there is no graph. -/
inductive ResolutionFailure where
  /-- A script is not below the marker folder. -/
  | misplaced (path : Path) (marker : String)
  /-- A path leads to no file: the root, or an import of a script. -/
  | notFound (importPath : ScriptText) (target : Path) (declaredIn : Option Path)
      (location : Option Location)
  | unreadable (error : ReadError)
  | graph (fault : GraphFault)
  /-- The walk goes deeper than there can be files. -/
  | tooDeep
  deriving DecidableEq, Repr

namespace ResolutionFailure

def message : ResolutionFailure → String
  | misplaced path marker =>
    s!"The script is not in the expected folder: '{marker}/' not found in {path}"
  | notFound importPath target none _ => s!"Script '{importPath.shown}' not found at {target}"
  | notFound importPath target (some declaring) _ =>
    s!"Script '{importPath.shown}' not found at {target} (imported from {declaring})"
  | unreadable error => error.message
  | graph fault => fault.message
  | tooDeep => "maximum recursion depth exceeded"

def location : ResolutionFailure → Option Location
  | notFound _ _ _ l => l
  | _ => none

end ResolutionFailure

/-- What happens while imports are resolved. -/
inductive ResolutionEvent where
  | named (path : Path) (name : String)
  | tested (path : Path)
  | opened (path : Path)
  /-- The directives of a script are looked up. -/
  | examined (path : Path)
  /-- Something is said about the directives of a script. -/
  | noted (note : ExtractionNote)
  /-- A script with so many directives enters the graph. -/
  | loaded (name : String) (path : Path) (count : Nat)
  /-- A directive of a script leads to no file. -/
  | skipped (directive : ScriptText) (declaring target : Path)
  | completed (root : String) (count : Nat)
  deriving DecidableEq, Repr

namespace ResolutionEvent

def namingChannel : String := "scripthost.module_system.path_namer"

def graphChannel : String := "scripthost.module_system.import_resolver"

def record? : ResolutionEvent → Option LogRecord
  | named path name => some ⟨.debug, namingChannel, s!"Path: {path} | Name: {name}"⟩
  | tested _ | opened _ | examined _ => none
  | noted note => some note.toRecord
  | loaded name path count =>
    some ⟨.debug, graphChannel, s!"Loaded script {name} ({path}): {count} directive(s)"⟩
  | skipped directive declaring target =>
    some ⟨.warning, graphChannel,
      s!"Skipping import '{directive.shown}' of {declaring}: {target} does not exist"⟩
  | completed root count => some ⟨.debug, graphChannel, s!"Resolved {root}: {count} script(s)"⟩

def asksFor? : ResolutionEvent → Option Path
  | tested path | opened path => some path
  | _ => none

end ResolutionEvent

abbrev Resolving := Traced ResolutionEvent ResolutionFailure

/-- Everything that a resolution depends on. -/
structure Resolver where
  settings : Settings
  extractor : Extractor
  files : FileSystem

namespace Resolver

def nameOf (r : Resolver) (path : Path) : Resolving String :=
  match r.settings.naming.symbolName? path with
  | none => .fail (.misplaced path r.settings.naming.marker)
  | some name => do
    .emit (.named path name)
    return name

def isFile (r : Resolver) (path : Path) : Resolving Bool := do
  .emit (.tested path)
  .ofExcept ((r.files.isFile path).mapError fun fault => .unreadable (.file fault path))

def readText (r : Resolver) (path : Path) : Resolving String := do
  .emit (.opened path)
  .ofExcept ((r.files.readText r.settings.codec path).mapError .unreadable)

def directivesOf (r : Resolver) (path : Path) (text : String) : Resolving (List Directive) :=
  let extraction := r.extractor path text
  ⟨.examined path :: extraction.notes.map .noted, .ok extraction.directives⟩

/-- The path that a directive of a script means. -/
def target (r : Resolver) (declaring : Path) (d : Directive) : Path :=
  r.files.normalize (declaring.parent.join (.ofString d.spelling))

/-- The file that a directive leads to, or nothing if it leads to none. -/
def locate (r : Resolver) (declaring : Path) (d : Directive) : Resolving (Option Path) := do
  let target := r.target declaring d
  if ← r.isFile target then return some target
  else if r.settings.strictImports then
    .fail (.notFound d.path target (some declaring) d.location)
  else
    .emit (.skipped d.path declaring target)
    return none

/-- A list with an element at its end, if it does not hold it already. -/
def appendNew (paths : List Path) (path : Path) : List Path :=
  if path ∈ paths then paths else paths ++ [path]

/-- The graph and the imports after the directives of a script, from those before. `visit` enters a
script that is not in the graph, with all that it reaches. -/
def follow (r : Resolver) (visit : ImportGraph → Path → String → Resolving ImportGraph)
    (declaring : Path) (graph : ImportGraph) (imports : List Path) :
    List Directive → Resolving (ImportGraph × List Path)
  | [] => return (graph, imports)
  | d :: ds => do
    match ← r.locate declaring d with
    | none => r.follow visit declaring graph imports ds
    | some target =>
      let graph ←
        if graph.contains target then pure graph
        else do visit graph target (← r.nameOf target)
      r.follow visit declaring graph (appendNew imports target) ds

/-- The graph after a script and all that it reaches, from the graph before. The depth bounds how
far the walk goes into imports. -/
def visit (r : Resolver) : (depth : Nat) → ImportGraph → Path → String → Resolving ImportGraph
  | 0, _, _, _ => .fail .tooDeep
  | depth + 1, graph, path, name => do
    let source ← r.readText path
    let directives ← r.directivesOf path source
    let node : ScriptNode := { path, name, source, directives }
    -- Imports that lead back to this script find it in the graph.
    let graph ← .ofExcept ((graph.add node).mapError .graph)
    .emit (.loaded name path directives.length)
    let (graph, imports) ← r.follow (r.visit depth) path graph [] directives
    .ofExcept ((graph.update { node with resolvedImports := imports }).mapError .graph)

/-- The graph of a root script, given by its path as a user writes it. Its name comes first, so a
misplaced root fails before any file is looked at. -/
def resolve (r : Resolver) (written : String) : Resolving ImportGraph := do
  let root := r.files.normalize (.ofString written)
  let name ← r.nameOf root
  if ← r.isFile root then
    let graph ← r.visit r.files.capacity (.empty root) root name
    .emit (.completed name graph.size)
    return graph.freeze
  else .fail (.notFound written root none none)

end Resolver

end ScriptRunner
