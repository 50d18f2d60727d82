import ScriptRunner.Script.Syntax
import ScriptRunner.Script.Token

/-!
# Phases of reading a script

A script is read by a machine with a stack. Its phase says what has been read of the current line,
hence which terminals may follow; one token moves it to the next phase and may complete an item.

## Main definitions

* `Operand`, `Pending` - an operand with its extent, and the operators that wait for the next one.
* `Context` - a growing expression: the statement it belongs to, its open brackets and what waits
  inside the innermost of them.
* `Phase`, `Phase.step` - the machine.
* `Phase.allows` - the terminals that may stand next.

## Design notes

Operators wait in three places, from the loosest to the tightest: a comparison, a sum, a product.
An operator takes what waits at its own place or a tighter one as its left operand, which makes sums
and products associate to the left. A comparison leaves no room for a second one.
-/

namespace ScriptRunner.Script

/-- An expression with the text it takes up, brackets around it included. -/
structure Operand where
  expr : Expr Written
  extent : Span
  deriving Repr

namespace Operand

/-- An operand between two others. -/
def binary (op : Operator) (left right : Operand) : Operand :=
  let span := left.extent.upTo right.extent
  ⟨.binary op left.expr right.expr span, span⟩

/-- An operand behind a minus sign that starts at a position. -/
def negate (operand : Operand) (start : Position) : Operand :=
  let span : Span := ⟨start, operand.extent.stop⟩
  ⟨.negate operand.expr span, span⟩

/-- An operand inside brackets. -/
def bracket (operand : Operand) (start stop : Position) : Operand :=
  ⟨operand.expr, ⟨start, stop⟩⟩

/-- An operand as the right side of what waits for it, if anything does. -/
def behind : Option (Operator × Operand) → Operand → Operand
  | none, operand => operand
  | some (op, left), operand => binary op left operand

end Operand

/-- How tightly an operator binds. -/
inductive Tightness where
  | comparison
  | sum
  | product
  deriving DecidableEq, Repr

/-- How tightly each operator binds. -/
def tightness : Operator → Tightness
  | .equal | .notEqual | .order _ => .comparison
  | .arithmetic .add | .arithmetic .subtract => .sum
  | .arithmetic _ => .product

/-- The operators with their left operands that wait for the next operand, and the starts of the
minus signs before it, the last one first. -/
structure Pending where
  comparison : Option (Operator × Operand) := none
  sum : Option (Operator × Operand) := none
  product : Option (Operator × Operand) := none
  minuses : List Position := []
  deriving Repr

namespace Pending

/-- The operand with its minus signs. -/
def signed (p : Pending) (operand : Operand) : Operand :=
  p.minuses.foldl Operand.negate operand

/-- The product that ends with an operand. -/
def productWith (p : Pending) (operand : Operand) : Operand :=
  Operand.behind p.product (p.signed operand)

/-- The sum that ends with an operand. -/
def sumWith (p : Pending) (operand : Operand) : Operand :=
  Operand.behind p.sum (p.productWith operand)

/-- The whole expression that ends with an operand. -/
def whole (p : Pending) (operand : Operand) : Operand :=
  Operand.behind p.comparison (p.sumWith operand)

/-- What waits after an operator behind an operand, if the operator may stand there. -/
def extend (p : Pending) (operand : Operand) (op : Operator) : Option Pending :=
  match tightness op with
  | .product => some { p with product := some (op, p.productWith operand), minuses := [] }
  | .sum => some { comparison := p.comparison, sum := some (op, p.sumWith operand) }
  | .comparison =>
    match p.comparison with
    | none => some { comparison := some (op, p.sumWith operand) }
    | some _ => none

end Pending

/-- The statement that a growing expression belongs to. -/
inductive Opening where
  | expression
  /-- After `val name =`; the position is that of `val`. -/
  | val (start : Position) (name : String)
  /-- After `println(`; the position is that of `println`. -/
  | print (start : Position)
  deriving DecidableEq, Repr

/-- A growing expression: its statement, what waits outside each open bracket together with the
bracket's position, the innermost first, and what waits inside. -/
structure Context where
  opening : Opening
  brackets : List (Pending × Position) := []
  pending : Pending := {}
  deriving Repr

/-- What has been read of the current line. -/
inductive Phase where
  | lineStart
  /-- The sign of an annotation; what follows it is added piece by piece. -/
  | annotationSign (start : Position)
  | annotationTarget (start : Position) (target : String)
  | annotationColon (start : Position) (target : String)
  | annotationName (start : Position) (target name : String)
  | annotationOpen (start : Position) (target name : String)
  | annotationArgument (start : Position) (target name : String) (argument : List Char)
  /-- A whole annotation, which a line end has to follow. -/
  | annotationEnd (item : WrittenItem)
  | valKeyword (start : Position)
  | valName (start : Position) (name : String)
  | printKeyword (start : Position)
  /-- An expression up to a place where an operand has to follow. -/
  | beforeOperand (ctx : Context)
  /-- An expression up to a name, which a member may follow. -/
  | nameEnd (ctx : Context) (name : String) (span : Span)
  /-- An expression up to the point behind an owner. -/
  | ownerDot (ctx : Context) (owner : String) (span : Span)
  /-- An expression up to the end of an operand. -/
  | operandEnd (ctx : Context) (operand : Operand)
  /-- A whole print statement, which the end of the statement has to follow. -/
  | printEnd (item : WrittenItem)
  deriving Repr

namespace Phase

def nameOf (t : Token) : String :=
  String.ofList t.text

/-- The phase after a token where an operand has to follow. -/
def startOperand (ctx : Context) (t : Token) : Option Phase :=
  match t.terminal with
  | .number => some (.operandEnd ctx ⟨.literal (.number t.text) t.span, t.span⟩)
  | .string => some (.operandEnd ctx ⟨.literal (.string t.text) t.span, t.span⟩)
  | .keyword (.truth b) => some (.operandEnd ctx ⟨.literal (.truth b) t.span, t.span⟩)
  | .name => some (.nameEnd ctx (nameOf t) t.span)
  | .operator (.arithmetic .subtract) =>
    let minuses := t.span.start :: ctx.pending.minuses
    some (.beforeOperand { ctx with pending := { ctx.pending with minuses := minuses } })
  | .mark .openParen =>
    let brackets := (ctx.pending, t.span.start) :: ctx.brackets
    some (.beforeOperand { ctx with brackets := brackets, pending := {} })
  | _ => none

/-- The statement that ends with its expression, if it may end there. -/
def statementOf : Opening → Operand → Option (Statement Written)
  | .expression, operand => some (.expression operand.expr operand.extent)
  | .val start name, operand => some (.val name operand.expr ⟨start, operand.extent.stop⟩)
  | .print _, _ => none

/-- The phase after a closing bracket behind an operand. -/
def closeBracket (ctx : Context) (operand : Operand) (t : Token) : Option Phase :=
  let inner := ctx.pending.whole operand
  match ctx.brackets, ctx.opening with
  | (outer, start) :: brackets, _ =>
    some (.operandEnd { ctx with brackets := brackets, pending := outer }
      (inner.bracket start t.span.stop))
  | [], .print start => some (.printEnd (.statement (.print inner.expr ⟨start, t.span.stop⟩)))
  | [], _ => none

/-- The phase after a token behind an operand, and the statement that the token completes. -/
def afterOperand (ctx : Context) (operand : Operand) (t : Token) :
    Option (Phase × Option WrittenItem) :=
  match t.terminal with
  | .operator op =>
    match ctx.pending.extend operand op with
    | some pending => some (.beforeOperand { ctx with pending := pending }, none)
    | none => none
  | .mark .closeParen => (closeBracket ctx operand t).map (·, none)
  | .lineEnd | .mark .semicolon =>
    match ctx.brackets, statementOf ctx.opening (ctx.pending.whole operand) with
    | [], some statement => some (.lineStart, some (.statement statement))
    | _, _ => none
  | _ => none

/-- The phase after a token and the item that the token completes, or nothing if the token may not
stand there. -/
def step (phase : Phase) (t : Token) : Option (Phase × Option WrittenItem) :=
  match phase, t.terminal with
  | lineStart, .lineEnd => some (lineStart, none)
  | lineStart, .mark .atSign => some (annotationSign t.span.start, none)
  | lineStart, .keyword .val => some (valKeyword t.span.start, none)
  | lineStart, .keyword .println => some (printKeyword t.span.start, none)
  | lineStart, _ => (startOperand { opening := .expression } t).map (·, none)
  | annotationSign start, .name => some (annotationTarget start (nameOf t), none)
  | annotationTarget start target, .mark .colon => some (annotationColon start target, none)
  | annotationColon start target, .name => some (annotationName start target (nameOf t), none)
  | annotationName start target name, .mark .openParen =>
    some (annotationOpen start target name, none)
  | annotationOpen start target name, .string =>
    some (annotationArgument start target name t.text, none)
  | annotationArgument start target name argument, .mark .closeParen =>
    some (annotationEnd (.annotate target name argument ⟨start, t.span.stop⟩), none)
  | annotationEnd item, .lineEnd => some (lineStart, some item)
  | valKeyword start, .name => some (valName start (nameOf t), none)
  | valName start name, .mark .assign => some (beforeOperand { opening := .val start name }, none)
  | printKeyword start, .mark .openParen => some (beforeOperand { opening := .print start }, none)
  | beforeOperand ctx, _ => (startOperand ctx t).map (·, none)
  | nameEnd ctx owner span, .mark .dot => some (ownerDot ctx owner span, none)
  | nameEnd ctx name span, _ => afterOperand ctx ⟨.name name span, span⟩ t
  | ownerDot ctx owner span, .name =>
    let whole := span.upTo t.span
    some (operandEnd ctx ⟨.member owner (nameOf t) whole, whole⟩, none)
  | operandEnd ctx operand, _ => afterOperand ctx operand t
  | printEnd item, .lineEnd | printEnd item, .mark .semicolon => some (lineStart, some item)
  | _, _ => none

/-- A terminal may stand next. Whether it may does not depend on its text or place. -/
def allows (phase : Phase) (terminal : Terminal) : Bool :=
  (phase.step ⟨terminal, [], ⟨.first, .first⟩⟩).isSome

end Phase

end ScriptRunner.Script
