import ScriptRunner.Path
import ScriptRunner.Text.Encoding
import ScriptRunner.Text.Quoted

/-!
# File systems

What a host has to know of the files around it: which paths are files, and the bytes in them.
Everything else about the disk stays behind these two questions.

## Main definitions

* `FileFault` - why the system does not answer a question about a path.
* `FileSystem` - the working directory and the two questions.
* `FileSystem.Bounded` - only finitely many paths are files.
* `ReadError`, `FileSystem.readText` - the text of a file.
-/

namespace ScriptRunner

/-- Why the system does not give access to a path. -/
inductive FileFault where
  | notFound
  /-- A file stands where the path needs a folder. -/
  | notFolder
  /-- A folder stands where a file is to be read. -/
  | isFolder
  | permissionDenied
  | nameTooLong
  /-- The path leads through more symbolic links than the system follows. -/
  | tooManyLinks
  deriving DecidableEq, Repr

namespace FileFault

/-- The number that POSIX systems give a fault. -/
def code : FileFault → Nat
  | notFound => 2
  | permissionDenied => 13
  | notFolder => 20
  | isFolder => 21
  | nameTooLong => 36
  | tooManyLinks => 40

def all : List FileFault :=
  [notFound, notFolder, isFolder, permissionDenied, nameTooLong, tooManyLinks]

def ofCode? (code : Nat) : Option FileFault :=
  all.find? (·.code == code)

/-- The system's words for a fault. -/
def description : FileFault → String
  | notFound => "No such file or directory"
  | permissionDenied => "Permission denied"
  | notFolder => "Not a directory"
  | isFolder => "Is a directory"
  | nameTooLong => "File name too long"
  | tooManyLinks => "Too many levels of symbolic links"

/-- What a fault of a path says. -/
def message (fault : FileFault) (path : Path) : String :=
  s!"[Errno {fault.code}] {fault.description}: {Text.quoted path.toString}"

/-- There is no file at a path that ends in one of these faults; the others leave the question
open. -/
def deniesFile : FileFault → Bool
  | notFound | notFolder | tooManyLinks => true
  | _ => false

end FileFault

/-- The files that a host sees. They do not change while it works. -/
structure FileSystem where
  /-- The folder from which relative paths are read, an absolute path. -/
  cwd : Path
  /-- A path leads to a file, symbolic links followed. -/
  isFile : Path → Except FileFault Bool
  /-- The bytes of the file at a path. -/
  read : Path → Except FileFault (List UInt8)
  /-- A bound on the number of paths that lead to files. -/
  capacity : Nat

/-- Why a script cannot be read. -/
inductive ReadError where
  | file (fault : FileFault) (path : Path)
  | undecodable (error : Text.DecodeError)
  deriving DecidableEq, Repr

def ReadError.message : ReadError → String
  | file fault path => fault.message path
  | undecodable error => error.message

namespace FileSystem

/-- No more paths lead to files than the capacity says. -/
def Bounded (fs : FileSystem) : Prop :=
  ∃ paths : List Path, paths.length ≤ fs.capacity ∧ ∀ p, fs.isFile p = .ok true → p ∈ paths

/-- The absolute form of a path, without `..`. -/
def normalize (fs : FileSystem) (path : Path) : Path :=
  fs.cwd.normalize path

/-- The text that bytes stand for, with line feeds for all line ends. -/
def decodeText (codec : Text.Codec) (bytes : List UInt8) : Except ReadError String :=
  match codec bytes with
  | .error error => .error (.undecodable error)
  | .ok cs => .ok (String.ofList (Text.unifyLineEnds cs))

/-- The text of the file at a path. The file is opened before its encoding is looked at. -/
def readText (fs : FileSystem) (codec : Text.Codec) (path : Path) : Except ReadError String :=
  match fs.read path with
  | .error fault => .error (.file fault path)
  | .ok bytes => decodeText codec bytes

end FileSystem

end ScriptRunner
