import ScriptRunner.CommandLine
import ScriptRunner.FileSystem.Snapshot

/-!
# The program

The outer layer: it reads the files that a run asks for, and writes what the run leaves behind.
-/

namespace ScriptRunner.CommandLine

/-- A number of the system without its sign. -/
def unsigned (code : UInt32) : Nat :=
  min code.toNat (UInt32.size - code.toNat)

/-- The number that the system gives an error. -/
def errorCode : IO.Error → Nat
  | .noFileOrDirectory _ code _ | .permissionDenied _ code _ | .inappropriateType _ code _
  | .invalidArgument _ code _ | .noSuchThing _ code _ | .otherError code _
  | .unsatisfiedConstraints code _ | .illegalOperation code _ => unsigned code
  | _ => 0

/-- The bytes behind a path of the real file system. -/
def readBytes (path : Path) : IO (Except FileFault (List UInt8)) := do
  try
    let bytes ← IO.FS.readBinFile ⟨path.toString⟩
    return .ok bytes.toList
  catch e =>
    return .error ((FileFault.ofCode? (errorCode e)).getD .notFound)

/-- Look at paths of the real file system. -/
def lookAt (snapshot : Snapshot) (paths : List Path) : IO Snapshot :=
  paths.foldlM (fun s path => do return s.learn path (← readBytes path)) snapshot

/-- The run of the script that the arguments name, with all files that it asks for. -/
partial def runOnDisk [CharacterNames] (arguments : List String) (snapshot : Snapshot) :
    IO (Option Run) := do
  match run? snapshot.fileSystem arguments with
  | none => return none
  | some run =>
    match snapshot.unknown (run.events.filterMap Event.asksFor?) with
    | [] => return some run
    | paths => runOnDisk arguments (← lookAt snapshot paths)

end ScriptRunner.CommandLine

open ScriptRunner in
/-- Run the script that the arguments name. -/
def main (arguments : List String) : IO UInt32 := do
  let cwd ← IO.currentDir
  let level ← IO.getEnv CommandLine.levelVariable
  -- No table of character names comes with the program.
  let _ : CharacterNames := .none
  let run ← CommandLine.runOnDisk arguments (.start (.ofString cwd.toString))
  let result := CommandLine.finish level run
  IO.print result.output.shown
  IO.eprint result.log
  return result.code.toUInt32
