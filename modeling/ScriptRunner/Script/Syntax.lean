import ScriptRunner.Source
import ScriptRunner.Value.Operator

/-!
# Syntax trees

## Main definitions

* `Expr`, `Statement`, `Item` - the tree of a script. Literals are a parameter: a freshly read tree
  holds them as they are written, a finished one holds their values.
* `Written` - a literal as it is written.
* `Annotation`, `Program` - a finished script.

## Design notes

The span of an operator expression reaches from its first operand to its last, the brackets around
the operands included and the brackets around itself not. The span of a statement includes all
brackets.
-/

namespace ScriptRunner.Script

/-- A literal as it is written, string literals with their quotes. -/
inductive Written where
  | number (text : List Char)
  | string (text : List Char)
  | truth (b : Bool)
  deriving DecidableEq, Repr

/-- Expressions over a type of literals. -/
inductive Expr (L : Type) where
  | literal (value : L) (span : Span)
  | name (name : String) (span : Span)
  /-- A binding of another script: `owner.name`. -/
  | member (owner name : String) (span : Span)
  | binary (op : Operator) (left right : Expr L) (span : Span)
  | negate (operand : Expr L) (span : Span)
  deriving Repr

def Expr.span {L : Type} : Expr L → Span
  | literal _ s | name _ s | member _ _ s | binary _ _ _ s | negate _ s => s

/-- Statements over a type of literals. -/
inductive Statement (L : Type) where
  /-- A binding of this script. -/
  | val (name : String) (value : Expr L) (span : Span)
  | print (value : Expr L) (span : Span)
  | expression (value : Expr L) (span : Span)
  deriving Repr

def Statement.span {L : Type} : Statement L → Span
  | val _ _ s | print _ s | expression _ s => s

/-- What stands on its own in a script, over a type of literals and a type of annotation
arguments. -/
inductive Item (L A : Type) where
  | annotate (target name : String) (argument : A) (span : Span)
  | statement (s : Statement L)
  deriving Repr

/-- An item as it is read, before its literals are worked out. -/
abbrev WrittenItem := Item Written (List Char)

/-- An annotation of a file, such as `@file:Import("lib/util.custom.kts")`. It is in the header if
no statement stands before it. -/
structure Annotation where
  target : String
  name : String
  argument : ScriptText
  span : Span
  inHeader : Bool
  deriving DecidableEq, Repr

/-- The annotations among the items of a script; `inHeader` says that no statement came before. -/
def annotationsOf {L : Type} : (inHeader : Bool) → List (Item L ScriptText) → List Annotation
  | _, [] => []
  | inHeader, .annotate target name argument span :: items =>
    ⟨target, name, argument, span, inHeader⟩ :: annotationsOf inHeader items
  | _, .statement _ :: items => annotationsOf false items

/-- The statements among the items of a script. -/
def statementsOf {L A : Type} : List (Item L A) → List (Statement L)
  | [] => []
  | .annotate .. :: items => statementsOf items
  | .statement s :: items => s :: statementsOf items

/-- A script: the name of its file in reports, its annotations and its statements, each in the order
of the text. -/
structure Program where
  file : String
  annotations : List Annotation
  statements : List (Statement Value)
  deriving Repr

namespace Program

/-- The script with the given items. -/
def ofItems (file : String) (items : List (Item Value ScriptText)) : Program :=
  ⟨file, annotationsOf true items, statementsOf items⟩

/-- The annotations before the first statement. -/
def header (p : Program) : List Annotation :=
  p.annotations.filter (·.inHeader)

def locate (p : Program) (span : Span) : Location :=
  .ofSpan p.file span

end Program

end ScriptRunner.Script
