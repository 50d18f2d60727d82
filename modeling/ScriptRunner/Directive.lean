import ScriptRunner.Log
import ScriptRunner.Path
import ScriptRunner.Script.Parse
import ScriptRunner.Table

/-!
# Import directives

A script names the scripts it imports in annotations before its first statement, such as
`@file:Import("../lib/util.custom.kts")`. Order and repetitions are kept.

## Main definitions

* `Directive` - one import as its script declares it.
* `Script.Program.directives` - the imports that a script declares.
* `ExtractionNote` - what is said when directives are looked up.
* `Extractor` - a way to find the directives of a script: `Extractor.annotations` reads them from
  the script, `Extractor.ofList` has them from elsewhere.
-/

namespace ScriptRunner

/-- The target of the annotations that declare imports. -/
def fileTarget : String := "file"

/-- The name of the annotations that declare imports. -/
def importName : String := "Import"

/-- An import as a script declares it: a path relative to the script's folder, and where it is
declared if that is known. -/
structure Directive where
  path : ScriptText
  location : Option Location := none
  deriving DecidableEq, Repr

namespace Directive

/-- The path of a directive as a string, for files and messages. Halves of surrogate pairs become
replacement characters. -/
def spelling (d : Directive) : String := d.path.shown

@[simp] theorem spelling_ofString (path : String) (location : Option Location) :
    (⟨path, location⟩ : Directive).spelling = path :=
  ScriptText.shown_ofString path

/-- The annotation that declares a directive. -/
def text (d : Directive) : ScriptText :=
  .ofString ("@" ++ fileTarget ++ ":" ++ importName ++ "(\"") ++ d.path ++ .ofString "\")"

/-- Directives for raw paths, in their order. -/
def ofPaths (paths : List String) : List Directive :=
  paths.map fun path => { path := .ofString path }

end Directive

/-- An annotation declares an import. -/
def Script.Annotation.isImport (a : Script.Annotation) : Bool :=
  a.target == fileTarget && a.name == importName

/-- The imports that a script declares: the import annotations of its header, in order. -/
def Script.Program.directives (p : Script.Program) : List Directive :=
  (p.header.filter (·.isImport)).map fun a => ⟨a.argument, some (p.locate a.span)⟩

/-- What is said when the directives of a script are looked up. -/
inductive ExtractionNote where
  /-- The text is no script, so nothing is known of its imports. -/
  | unparsed (path : Path) (error : Script.ParseError)
  /-- So many directives are read. -/
  | found (path : Path) (count : Nat)
  deriving DecidableEq, Repr

namespace ExtractionNote

def channel : String := "scripthost.module_system.directives"

def message : ExtractionNote → String
  | unparsed path e =>
    s!"No import directives read from {path}: {messageAt e.message e.location}"
  | found path count => s!"{path}: {count} import directive(s)"

def toRecord (note : ExtractionNote) : LogRecord := ⟨.debug, channel, note.message⟩

end ExtractionNote

/-- The directives of a script, and what is said about them. -/
structure Extraction where
  directives : List Directive
  notes : List ExtractionNote := []
  deriving DecidableEq, Repr

/-- A way to find the directives of a script from its normalized path and its text. -/
abbrev Extractor := Path → String → Extraction

namespace Extractor

/-- The directives that the text itself declares. A text that is no script declares none. -/
def annotations [CharacterNames] : Extractor := fun path text =>
  match Script.parse path.toString text with
  | .error e => ⟨[], [.unparsed path e]⟩
  | .ok program => ⟨program.directives, [.found path program.directives.length]⟩

/-- Directives that are given for each script beforehand. Paths are compared in their normalized
forms, and of two entries for one script the later one holds. -/
def ofList (cwd : Path) (entries : List (Path × List String)) : Extractor :=
  let table : Table Path (List String) :=
    .ofList (entries.map fun entry => (cwd.normalize entry.1, entry.2))
  fun path _ => { directives := Directive.ofPaths ((table.find? (cwd.normalize path)).getD []) }

theorem directives_ofList_singleton (cwd path : Path) (paths : List String) (text : String) :
    (ofList cwd [(path, paths)] path text).directives = Directive.ofPaths paths := by
  simp [ofList, Table.ofList, Table.find?_insert_self]

end Extractor

end ScriptRunner
