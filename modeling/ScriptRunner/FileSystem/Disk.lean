import ScriptRunner.FileSystem
import ScriptRunner.Table

/-!
# Disks in memory

A tree of folders, files and symbolic links, and the way a path leads through it.

## Main definitions

* `Disk`, `Disk.Entry` - what stands at each place.
* `Disk.walk` - where a path leads.
* `Disk.makeFolder`, `Disk.writeFile`, `Disk.makeLink`, `Disk.remove` - changes.
* `Disk.fileSystem` - the file system that a disk presents.

## Design notes

A place is the list of names from the root to an entry, without links and without `..`. A link is
followed where it stands: its target is read from the folder that holds it, and `..` after it leaves
the folder that it leads to.
-/

namespace ScriptRunner

/-- What stands at a place of a disk. -/
inductive Disk.Entry where
  | file (bytes : List UInt8)
  | folder
  | link (target : String)
  deriving DecidableEq, Repr

/-- The entries of a disk by their places. The root is a folder on every disk. -/
structure Disk where
  entries : Table (List String) Disk.Entry

namespace Disk

def empty : Disk := ⟨.empty⟩

def entry? (disk : Disk) : List String → Option Entry
  | [] => some .folder
  | place => disk.entries.find? place

/-- The greatest number of links that one path may lead through. -/
def linkLimit : Nat := 40

/-- The greatest number of bytes of a name. -/
def nameLimit : Nat := 255

/-- The greatest number of bytes of a path. -/
def pathLimit : Nat := 4095

/-- The names that a link's target leads through. A slash at the end asks for a folder, as `.`
does. -/
def targetNames (target : String) : List String :=
  let names := (Text.splitWhere (· == '/') target.toList).filter (· != [])
  let names := names.map String.ofList
  if target.toList.getLast? == some '/' then names ++ ["."] else names

/-- Where a path leads. -/
inductive Destination where
  | file (place : List String) (bytes : List UInt8)
  | folder (place : List String)
  /-- A place where nothing stands, and the names that the path goes on with. -/
  | missing (place rest : List String)
  deriving DecidableEq, Repr

/-- Where names lead from a folder. `follow` goes on from a folder with the names that a link and
the names behind it make up. -/
def walkWith (disk : Disk) (follow : List String → List String → Except FileFault Destination)
    (here : List String) : List String → Except FileFault Destination
  | [] => .ok (.folder here)
  | name :: rest =>
    if name = "." then disk.walkWith follow here rest
    -- The folder above is that of the place reached, not of the link that led there.
    else if name = ".." then disk.walkWith follow here.dropLast rest
    else if nameLimit < name.utf8ByteSize then .error .nameTooLong
    else
      let place := here ++ [name]
      match disk.entry? place with
      | none => .ok (.missing place rest)
      | some .folder => disk.walkWith follow place rest
      | some (.file bytes) => if rest = [] then .ok (.file place bytes) else .error .notFolder
      | some (.link target) =>
        follow (if target.startsWith "/" then [] else here) (targetNames target ++ rest)

/-- Where names lead from a folder, when so many links may still be followed. -/
def walk (disk : Disk) : (links : Nat) → List String → List String → Except FileFault Destination
  | 0 => disk.walkWith fun _ _ => .error .tooManyLinks
  | links + 1 => disk.walkWith (disk.walk links)

/-- Where a path leads from a folder. -/
def locate (disk : Disk) (cwd : List String) (path : Path) : Except FileFault Destination :=
  if pathLimit < path.toString.utf8ByteSize then .error .nameTooLong
  else disk.walk linkLimit (if path.anchor = .relative then cwd else []) path.segments

def set (disk : Disk) (place : List String) (entry : Entry) : Disk :=
  ⟨disk.entries.insert place entry⟩

/-- Go from a folder to the folder that names lead to, making what is missing on the way. The second
part of the answer is the place of that folder, or nothing if something else stands in the way. -/
def makeFolders (disk : Disk) (here : List String) : List String → Disk × Option (List String)
  | [] => (disk, some here)
  | name :: rest =>
    match disk.walk linkLimit here [name] with
    | .ok (.folder place) => disk.makeFolders place rest
    | .ok (.missing place []) => (disk.set place .folder).makeFolders place rest
    | _ => (disk, none)

/-- Make a folder at an absolute path, with all folders that the path leads through. -/
def makeFolder (disk : Disk) (path : Path) : Disk × Option (List String) :=
  disk.makeFolders [] path.segments

/-- Put an entry at an absolute path, without following a link that stands there. -/
def put (disk : Disk) (path : Path) (entry : Entry) : Disk :=
  match disk.makeFolder path.parent, path.segments.getLast? with
  | (disk, some folder), some name => disk.set (folder ++ [name]) entry
  | _, _ => disk

/-- Write a file at an absolute path, or where a link at that path leads; the folders above it are
made. -/
def writeFile (disk : Disk) (path : Path) (bytes : List UInt8) : Disk :=
  match disk.makeFolder path.parent, path.segments.getLast? with
  | (disk, some folder), some name =>
    match disk.walk linkLimit folder [name] with
    | .ok (.file place _) | .ok (.missing place []) => disk.set place (.file bytes)
    | _ => disk
  | _, _ => disk

/-- Make a symbolic link at an absolute path; the folders above it are made. -/
def makeLink (disk : Disk) (path : Path) (target : String) : Disk :=
  disk.put path (.link target)

/-- Remove the file or link at an absolute path. -/
def remove (disk : Disk) (path : Path) : Disk :=
  match disk.locate [] path.parent, path.segments.getLast? with
  | .ok (.folder folder), some name => ⟨disk.entries.erase (folder ++ [name])⟩
  | _, _ => disk

/-- A path leads to a file. A path that leads nowhere does not, but a path that is too long has no
answer. -/
def isFile (disk : Disk) (cwd : List String) (path : Path) : Except FileFault Bool :=
  match disk.locate cwd path with
  | .ok (.file _ _) => .ok true
  | .ok _ => .ok false
  | .error fault => if fault.deniesFile then .ok false else .error fault

/-- The bytes of the file that a path leads to. -/
def read (disk : Disk) (cwd : List String) (path : Path) : Except FileFault (List UInt8) :=
  match disk.locate cwd path with
  | .ok (.file _ bytes) => .ok bytes
  | .ok (.folder _) => .error .isFolder
  | .ok (.missing _ _) => .error .notFound
  | .error fault => .error fault

/-- More paths than have at most `pathLimit` bytes. -/
def pathCount : Nat := Nat.pow 257 (pathLimit + 1)

/-- The file system that a disk presents to someone in a folder. -/
def fileSystem (disk : Disk) (cwd : List String) : FileSystem where
  cwd := ⟨.root, cwd⟩
  isFile := disk.isFile cwd
  read := disk.read cwd
  capacity := pathCount

end Disk

end ScriptRunner
