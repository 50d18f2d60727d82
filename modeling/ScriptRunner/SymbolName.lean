import ScriptRunner.Path
import ScriptRunner.Text.UpperCase

/-!
# Symbol names

A script is known to other scripts by a name built from its whole path below a marker folder, so
that two scripts with one file name in different folders keep apart: with the marker `scripts`, the
script `/w/scripts/sub_folder/foo.custom.kts` is `SubFolderFoo`.

## Main definitions

* `Naming` - the marker folder and the file extension that names leave out.
* `Naming.relativePath?` - the part of a path below the first marker folder.
* `nameTokens` - the words of a relative path.
* `Naming.symbolName?` - the name of a script.
-/

namespace ScriptRunner

/-- A marker as a bare folder name, without slashes around it. -/
def normalizeMarker (marker : String) : String :=
  String.ofList
    ((marker.toList.dropWhile (· == '/')).reverse.dropWhile (· == '/')).reverse

/-- What names are built from: the folder that anchors them and the file extension they leave
out. -/
structure Naming where
  rootMarker : String
  extension : String
  deriving DecidableEq, Repr

namespace Naming

/-- The marker as a folder name. -/
def marker (naming : Naming) : String :=
  normalizeMarker naming.rootMarker

/-- The segments that follow the first occurrence of `marker`. -/
def segmentsBelow (marker : String) : List String → Option (List String)
  | [] => none
  | segment :: rest => if segment = marker then some rest else segmentsBelow marker rest

/-- The part of a normalized path below the first marker folder, or nothing when the path has no
such folder or ends with it. -/
def relativePath? (naming : Naming) (path : Path) : Option String :=
  match segmentsBelow naming.marker path.segments with
  | none | some [] => none
  | some (segment :: rest) => some ("/".intercalate (segment :: rest))

/-- A text without the extension, if it ends in it. -/
def stripExtension (naming : Naming) (relative : String) : String :=
  if naming.extension.toList.isSuffixOf relative.toList then
    String.ofList (relative.toList.take (relative.length - naming.extension.length))
  else
    relative

end Naming

/-- The characters that separate the words of a relative path. -/
def isNameSeparator (c : Char) : Bool :=
  c == '/' || c == '.' || c == '_'

/-- The words of a relative path; empty words are kept. -/
def nameTokens (relative : String) : List (List Char) :=
  Text.splitWhere isNameSeparator relative.toList

def isNameCharacter (c : Char) : Bool :=
  c.isAlphanum

/-- The same character if a name may hold it, an underscore otherwise. -/
def nameCharacter (c : Char) : Char :=
  if isNameCharacter c then c else '_'

/-- A word with its first character in upper case and the others as they are. -/
def capitalize : List Char → List Char
  | [] => []
  | c :: rest => Text.upperCase c ++ rest

/-- The name made of the words of a relative path. -/
def nameOfRelative (relative : String) : String :=
  String.ofList ((nameTokens relative).flatMap fun token => (capitalize token).map nameCharacter)

/-- The symbol name of the script at a normalized path, or nothing when the script is not below the
marker folder. -/
def Naming.symbolName? (naming : Naming) (path : Path) : Option String :=
  (naming.relativePath? path).map fun relative => nameOfRelative (naming.stripExtension relative)

def Naming.standard : Naming := ⟨"scripts", ".custom.kts"⟩

example :
    Naming.standard.symbolName? (Path.ofString "/w/scripts/sub_folder/foo.custom.kts") =
      some "SubFolderFoo" := by decide +kernel

end ScriptRunner
