import ScriptRunner.FileSystem
import ScriptRunner.Table

/-!
# Snapshots of a file system

What is known of a real file system: for some paths, the bytes behind them or the reason why there
are none. A pure computation runs on a snapshot as on any file system; it then says which paths it
asked for, and it is run again on a larger snapshot until all of them are known.

## Main definitions

* `Snapshot` - what is known, path by path.
* `Snapshot.fileSystem` - a file system that holds only what is known.
* `Snapshot.unknown` - the paths of a list that a snapshot does not know.
-/

namespace ScriptRunner

/-- For each path that has been looked at, its bytes or the fault in reading it. -/
structure Snapshot where
  cwd : Path
  known : Table Path (Except FileFault (List UInt8))

namespace Snapshot

/-- The snapshot in which no path has been looked at. -/
def start (cwd : Path) : Snapshot := ⟨cwd, .empty⟩

/-- The snapshot with one more path. -/
def learn (s : Snapshot) (path : Path) (outcome : Except FileFault (List UInt8)) : Snapshot :=
  { s with known := s.known.insert path outcome }

/-- A path leads to a file, as far as is known. What may not be read may still be a file. -/
def isFile (s : Snapshot) (path : Path) : Except FileFault Bool :=
  match s.known.find? path with
  | some (.ok _) | some (.error .permissionDenied) => .ok true
  | some (.error .nameTooLong) => .error .nameTooLong
  | some (.error _) | none => .ok false

/-- The bytes behind a path, as far as is known. -/
def read (s : Snapshot) (path : Path) : Except FileFault (List UInt8) :=
  (s.known.find? path).getD (.error .notFound)

/-- The file system that holds what is known and nothing else. -/
def fileSystem (s : Snapshot) : FileSystem where
  cwd := s.cwd
  isFile := s.isFile
  read := s.read
  capacity := s.known.size

/-- A file of a snapshot is one of its paths. -/
theorem bounded_fileSystem (s : Snapshot) : s.fileSystem.Bounded := by
  refine ⟨s.known.keys, by simp [fileSystem, Table.keys, Table.size], fun p hp => ?_⟩
  rw [← Table.contains_iff_mem_keys, Table.contains]
  change s.isFile p = .ok true at hp
  unfold isFile at hp
  split at hp <;> simp_all

/-- The paths of a list that are not known. -/
def unknown (s : Snapshot) (paths : List Path) : List Path :=
  paths.filter fun path => !s.known.contains path

end Snapshot

end ScriptRunner
