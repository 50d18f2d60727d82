/-!
# Places in a source text

## Main definitions

* `Position` - a line and a column, both counted from 1; a column counts characters.
* `Span` - the positions of a construct's first character and of the one after its last.
* `Location` - a place in a named file, as it stands in reports.
-/

namespace ScriptRunner

/-- A line and a column of a text, both counted from 1. -/
structure Position where
  line : Nat
  column : Nat
  deriving DecidableEq, Repr, Inhabited

namespace Position

def first : Position := ⟨1, 1⟩

/-- The position after a character; only a line feed starts a new line. -/
def advance (p : Position) (c : Char) : Position :=
  if c = '\n' then ⟨p.line + 1, 1⟩ else ⟨p.line, p.column + 1⟩

/-- The position after a run of characters. -/
def advanceAll (p : Position) (cs : List Char) : Position :=
  cs.foldl advance p

@[simp] theorem advanceAll_nil (p : Position) : p.advanceAll [] = p := rfl

@[simp] theorem advanceAll_cons (p : Position) (c : Char) (cs : List Char) :
    p.advanceAll (c :: cs) = (p.advance c).advanceAll cs := rfl

theorem advanceAll_append (p : Position) (xs ys : List Char) :
    p.advanceAll (xs ++ ys) = (p.advanceAll xs).advanceAll ys := by
  simp [advanceAll, List.foldl_append]

end Position

/-- The extent of a construct; `stop` is the position after its last character. -/
structure Span where
  start : Position
  stop : Position
  deriving DecidableEq, Repr, Inhabited

/-- The span from the start of one construct to the end of a later one. -/
def Span.upTo (first last : Span) : Span := ⟨first.start, last.stop⟩

/-- A place in a file. An end line and column of 0 mean that the end is not known. The numbers are
integers because a report may quote an engine that counts in its own way. -/
structure Location where
  file : String
  line : Int
  column : Int
  endLine : Int := 0
  endColumn : Int := 0
  deriving DecidableEq, Repr, Inhabited

namespace Location

def ofSpan (file : String) (span : Span) : Location :=
  ⟨file, span.start.line, span.start.column, span.stop.line, span.stop.column⟩

/-- A single position in a file, with no known end. -/
def ofPosition (file : String) (p : Position) : Location :=
  { file := file, line := p.line, column := p.column }

/-- File, line and column with colons between them. -/
def toString (l : Location) : String :=
  s!"{l.file}:{l.line}:{l.column}"

instance : ToString Location := ⟨Location.toString⟩

end Location

/-- A message with its place behind it, if it has one. -/
def messageAt (message : String) : Option Location → String
  | some l => s!"{message} ({l})"
  | none => message

end ScriptRunner
