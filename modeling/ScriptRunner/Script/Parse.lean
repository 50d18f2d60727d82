import ScriptRunner.Script.Literal
import ScriptRunner.Script.Phase

/-!
# Reading scripts

## Main definitions

* `SyntaxFault`, `readItems` - the items of a text, literals as they are written.
* `ContentFault`, `Item.settle` - the items with the values of their literals.
* `ParseError`, `ParseError.message` - why a text is no script.
* `parse` - from a text to a script.

## Design notes

Every statement ends with a line, so a line feed is added to a text that does not end in one. A text
is read to its end before any literal is worked out; then the first fault in the order in which the
parts of the script are complete is the one reported. What has to be placed in a report needs a file
name; a text without one can only be a script without statements and annotations.
-/

namespace ScriptRunner.Script

/-- What is wrong with the form of a text. -/
inductive SyntaxFault where
  | unexpectedToken (text : List Char)
  | unexpectedLineEnd
  | unexpectedEnd
  | unexpectedCharacter (c : Char)
  deriving DecidableEq, Repr

def SyntaxFault.message : SyntaxFault → String
  | unexpectedToken text => s!"unexpected token '{String.ofList text}'"
  | unexpectedLineEnd => "unexpected end of line"
  | unexpectedEnd => "unexpected end of file"
  | unexpectedCharacter c => s!"unexpected character '{c}'"

/-- The fault of a token that may not stand where it does. -/
def SyntaxFault.ofToken : Terminal → List Char → SyntaxFault
  | .lineEnd, _ => unexpectedLineEnd
  | _, text => unexpectedToken text

/-- The items of a text from a phase on, the first character standing at a position; or the first
fault and its position. -/
def readItems (phase : Phase) (position : Position) (cs : List Char) :
    Except (SyntaxFault × Position) (List WrittenItem) :=
  let blanks := blankRun false cs
  let here := position.advanceAll blanks.1
  match _h : scan phase.allows blanks.2 with
  | .token terminal text rest =>
    let there := here.advanceAll text
    match phase.step ⟨terminal, text, ⟨here, there⟩⟩ with
    | some (next, item) =>
      match readItems next there rest with
      | .ok items => .ok (item.toList ++ items)
      | .error fault => .error fault
    | none => .error (.ofToken terminal text, here)
  | .unexpected terminal text => .error (.ofToken terminal text, here)
  | .unknown =>
    match blanks.2, phase with
    | c :: _, _ => .error (.unexpectedCharacter c, here)
    | [], .lineStart => .ok []
    | [], _ => .error (.unexpectedEnd, here)
termination_by cs.length
decreasing_by
  have hscan := scan_shortens _h
  have hblank : blanks.2.length ≤ cs.length := blankRun_length_le false cs
  omega

/-- Why a well-formed text is no script. -/
inductive ContentFault where
  | literal (fault : LiteralFault)
  /-- There is no file name to place a part of the script in. -/
  | unnamedFile
  deriving DecidableEq, Repr

def ContentFault.message : ContentFault → String
  | literal fault => fault.message
  | unnamedFile =>
    "Parser bug: current_file not set. Parser must set current_file before transforming."

/-- Placing something needs a file name. -/
def requireFile (file : String) : Except ContentFault Unit :=
  if file = "" then .error .unnamedFile else .ok ()

variable [CharacterNames]

/-- The value of a literal; truth values have to be placed, other literals place themselves. -/
def Written.settle (file : String) : Written → Except ContentFault Value
  | truth b => (requireFile file).map fun _ => .boolean b
  | w => w.value.mapError .literal

/-- An expression with the values of its literals. -/
def Expr.settle (file : String) : Expr Written → Except ContentFault (Expr Value)
  | literal w span => return .literal (← w.settle file) span
  | name n span => return .name n span
  | member owner n span => do
    requireFile file
    return .member owner n span
  | binary op left right span => do
    let left ← left.settle file
    let right ← right.settle file
    requireFile file
    return .binary op left right span
  | negate operand span => do
    let operand ← operand.settle file
    requireFile file
    return .negate operand span

/-- A statement with the values of its literals. -/
def Statement.settle (file : String) : Statement Written → Except ContentFault (Statement Value)
  | val name value span => do
    let value ← value.settle file
    requireFile file
    return .val name value span
  | print value span => do
    let value ← value.settle file
    requireFile file
    return .print value span
  | expression value span => do
    let value ← value.settle file
    requireFile file
    return .expression value span

/-- An item with the values of its literals. -/
def Item.settle (file : String) : WrittenItem → Except ContentFault (Item Value ScriptText)
  | annotate target name argument span => do
    let argument ← (stringContent argument).mapError .literal
    requireFile file
    return .annotate target name argument span
  | statement s => return .statement (← s.settle file)

/-- Why a text is no script. -/
inductive ParseFault where
  | malformed (fault : SyntaxFault) (position : Position)
  | content (fault : ContentFault)
  deriving DecidableEq, Repr

/-- A text that is no script: the name of its file and the reason. -/
structure ParseError where
  file : String
  fault : ParseFault
  deriving DecidableEq, Repr

namespace ParseError

def location : ParseError → Option Location
  | ⟨file, .malformed _ position⟩ => some (.ofPosition file position)
  | ⟨_, .content _⟩ => none

def message : ParseError → String
  | ⟨file, .malformed fault position⟩ =>
    s!"Parse error at {Location.ofPosition file position}: {fault.message}"
  | ⟨file, .content fault⟩ => s!"Parse error in {file}: {fault.message}"

end ParseError

def withLineEnd (cs : List Char) : List Char :=
  if cs.getLast? = some '\n' then cs else cs ++ ['\n']

/-- The script that a text denotes. -/
def parse (file : String) (text : String) : Except ParseError Program :=
  match readItems .lineStart .first (withLineEnd text.toList) with
  | .error (fault, position) => .error ⟨file, .malformed fault position⟩
  | .ok items =>
    match items.mapM (Item.settle file) with
    | .error fault => .error ⟨file, .content fault⟩
    | .ok items => .ok (.ofItems file items)

end ScriptRunner.Script
