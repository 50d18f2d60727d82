import ScriptRunner.Text.Split

/-!
# File paths

A path is where it starts and the list of its segments. Reading a path drops empty segments and
`.`, and keeps `..`, because only the disk can say where a symbolic link leads; `normalize` is the
lexical step that makes a path absolute and removes `..` as well.

## Main definitions

* `Path` - anchor and segments.
* `Path.ofString`, `Path.toString` - reading and showing.
* `Path.join`, `Path.parent` - moving along the tree.
* `Path.collapse`, `Path.normalize` - the absolute form without `.` and `..`.

## Design notes

Exactly two leading slashes name a root of their own in POSIX, so they survive reading and
normalization; three or more mean the ordinary root.
-/

namespace ScriptRunner

/-- Where a path starts. -/
inductive Anchor where
  | relative
  | root
  /-- At the root written with exactly two slashes. -/
  | doubleRoot
  deriving DecidableEq, Repr

/-- The leading slashes of a path with this anchor. -/
def Anchor.text : Anchor → String
  | relative => ""
  | root => "/"
  | doubleRoot => "//"

/-- A file path: its anchor, then its segments from the outermost folder inwards. -/
structure Path where
  anchor : Anchor
  segments : List String
  deriving DecidableEq, Repr

namespace Path

/-- The anchor that a text's leading slashes denote. -/
def anchorOf : List Char → Anchor
  | '/' :: '/' :: '/' :: _ => .root
  | '/' :: '/' :: _ => .doubleRoot
  | '/' :: _ => .root
  | _ => .relative

/-- A piece between slashes counts unless it is empty or names its own folder. -/
def isSegment (piece : List Char) : Bool :=
  !(piece == [] || piece == ['.'])

def ofString (s : String) : Path where
  anchor := anchorOf s.toList
  segments := ((Text.splitWhere (· == '/') s.toList).filter isSegment).map String.ofList

/-- Show a path; the relative path without segments is the folder `.` itself. -/
def toString (p : Path) : String :=
  match p.anchor, p.segments with
  | .relative, [] => "."
  | anchor, segments => anchor.text ++ "/".intercalate segments

instance : ToString Path := ⟨Path.toString⟩

/-- A path read from the folder `base`: an absolute path stands for itself. -/
def join (base p : Path) : Path :=
  match p.anchor with
  | .relative => ⟨base.anchor, base.segments ++ p.segments⟩
  | _ => p

/-- The folder that holds a path; the root holds itself. -/
def parent (p : Path) : Path :=
  { p with segments := p.segments.dropLast }

/-- One segment after a stack of segments, innermost first: `..` leaves the innermost folder, and
the root is its own parent. -/
def push (stack : List String) (segment : String) : List String :=
  if segment = ".." then stack.tail else segment :: stack

/-- The segments of an absolute path with every `..` carried out. -/
def collapse (segments : List String) : List String :=
  (segments.foldl push []).reverse

/-- The absolute form of a path without `..`, read from the folder `cwd`. Links are not followed. -/
def normalize (cwd p : Path) : Path :=
  let absolute := cwd.join p
  { absolute with segments := collapse absolute.segments }

def top : Path := ⟨.root, []⟩

example : (ofString "/w//a/./b/").toString = "/w/a/b" := by decide +kernel
example : (ofString "").toString = "." := by decide +kernel
example : (normalize top (ofString "//a/../../b")).toString = "//b" := by decide +kernel

end Path

end ScriptRunner
