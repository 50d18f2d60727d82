import ScriptRunner.Value

/-!
# Operators

What the operators of the script language do with values, and how they fail.

## Main definitions

* `Operator`, `Operator.symbol` - the operators and how they are written.
* `OperatorFault`, `OperatorFault.message` - why an operator has no value.
* `Operator.apply`, `negate` - the operators as functions.
* `applySymbol` - an operator given by the way it is written.

## Design notes

Two integers are computed with exactly; division truncates towards zero and the remainder keeps the
sign of the dividend. As soon as one operand is a double, both are: an integer that no double is
near to makes the operation fail. Comparisons never convert, they are exact.
-/

namespace ScriptRunner

/-- Operators from numbers to a number. -/
inductive ArithmeticOperator where
  | add
  | subtract
  | multiply
  | divide
  | remainder
  deriving DecidableEq, Repr

/-- Operators that ask for the order of their operands. -/
inductive OrderOperator where
  | less
  | lessOrEqual
  | greater
  | greaterOrEqual
  deriving DecidableEq, Repr

inductive Operator where
  | equal
  | notEqual
  | order (o : OrderOperator)
  | arithmetic (o : ArithmeticOperator)
  deriving DecidableEq, Repr

def ArithmeticOperator.symbol : ArithmeticOperator → String
  | add => "+"
  | subtract => "-"
  | multiply => "*"
  | divide => "/"
  | remainder => "%"

def OrderOperator.symbol : OrderOperator → String
  | less => "<"
  | lessOrEqual => "<="
  | greater => ">"
  | greaterOrEqual => ">="

namespace Operator

def symbol : Operator → String
  | equal => "=="
  | notEqual => "!="
  | order o => o.symbol
  | arithmetic o => o.symbol

def all : List Operator :=
  [equal, notEqual, order .lessOrEqual, order .greaterOrEqual, order .less, order .greater,
    arithmetic .add, arithmetic .subtract, arithmetic .multiply, arithmetic .divide,
    arithmetic .remainder]

/-- The operator that is written in a given way. -/
def ofSymbol? (s : String) : Option Operator :=
  all.find? (·.symbol == s)

end Operator

/-- Why an operator has no value for its operands. -/
inductive OperatorFault where
  /-- The operator does not take operands of these types. -/
  | undefined (symbol : String) (left right : ValueType)
  /-- There is no operator that is written so. -/
  | unknown (symbol : String)
  | divisionByZero
  /-- An integer operand is too large for a double. -/
  | tooLarge (symbol : String)
  /-- The remainder of an infinite dividend. -/
  | outsideDomain (symbol : String)
  /-- An integer operand has too many digits to be written. -/
  | tooLong
  /-- The operand of unary minus is no number. -/
  | notNegatable (operand : ValueType)
  deriving DecidableEq, Repr

/-- The message for an integer that has too many digits to be written. -/
def tooLongMessage : String :=
  s!"Exceeds the limit ({intDigitLimit} digits) for integer string conversion; " ++
    "use sys.set_int_max_str_digits() to increase the limit"

def OperatorFault.message : OperatorFault → String
  | undefined symbol left right =>
    s!"Operator '{symbol}' is not defined for {left.name} and {right.name}"
  | unknown symbol => s!"Unknown operator '{symbol}'"
  | divisionByZero => "Division by zero"
  | tooLarge symbol => s!"Arithmetic error in '{symbol}': int too large to convert to float"
  | outsideDomain symbol => s!"Arithmetic error in '{symbol}': math domain error"
  | tooLong => s!"Cannot render value: {tooLongMessage}"
  | notNegatable operand => s!"Unary minus is not defined for {operand.name}"

namespace Value

/-- The exact order of two values: numbers by size, texts character by character. There is none for
other operands and for a double that is no number. -/
def compare? : Value → Value → Option Ordering
  | int a, int b => some (compare a b)
  | int a, double y => Binary64.compareInt a y
  | double x, int b => (Binary64.compareInt b x).map Ordering.swap
  | double x, double y =>
    if x < y then some .lt else if y < x then some .gt else if x == y then some .eq else none
  | string s, string t => some (compare s t)
  | _, _ => none

/-- Equality of script values: numbers by size, other values only with their own type. -/
def equals : Value → Value → Bool
  | string s, string t => s == t
  | boolean a, boolean b => a == b
  | v, w => v.isNumber && w.isNumber && v.compare? w == some .eq

/-- A number as a double, or nothing if it is an integer that no double is near to. -/
def toDouble? : Value → Option Float
  | int n => Binary64.ofInt? n
  | double x => some x
  | _ => none

/-- Zero, as an integer or as a double of either sign. -/
def isZero : Value → Bool
  | int n => n == 0
  | double x => x == 0
  | _ => false

end Value

/-- The answer of an order operator for operands in a given order; every answer is negative when
the operands have no order. -/
def OrderOperator.holds : OrderOperator → Option Ordering → Bool
  | less, some .lt => true
  | lessOrEqual, some .lt | lessOrEqual, some .eq => true
  | greater, some .gt => true
  | greaterOrEqual, some .gt | greaterOrEqual, some .eq => true
  | _, _ => false

namespace ArithmeticOperator

/-- The quotient of the absolute values, negative if the signs of the integers differ. -/
def intQuotient (a b : Int) : Int :=
  let quotient : Nat := a.natAbs / b.natAbs
  if a < 0 ↔ b < 0 then quotient else -quotient

/-- The remainder of the absolute values with the sign of the dividend. -/
def intRemainder (a b : Int) : Int :=
  let remainder : Nat := a.natAbs % b.natAbs
  if 0 ≤ a then remainder else -remainder

/-- The operation on integers; the divisor is not zero. -/
def onInts : ArithmeticOperator → Int → Int → Int
  | add, a, b => a + b
  | subtract, a, b => a - b
  | multiply, a, b => a * b
  | divide, a, b => intQuotient a b
  | remainder, a, b => intRemainder a b

/-- The operation on doubles, or nothing outside its domain. -/
def onDoubles? : ArithmeticOperator → Float → Float → Option Float
  | add, x, y => some (x + y)
  | subtract, x, y => some (x - y)
  | multiply, x, y => some (x * y)
  | divide, x, y => some (x / y)
  | remainder, x, y => Binary64.remainder? x y

/-- Division and remainder need a divisor that is not zero. -/
def dividesBy : ArithmeticOperator → Bool
  | divide | remainder => true
  | _ => false

/-- The operation on numbers: exact on integers, else on doubles. -/
def onNumbers (o : ArithmeticOperator) : Value → Value → Except OperatorFault Value
  | .int a, .int b => .ok (.int (o.onInts a b))
  | v, w =>
    match v.toDouble?, w.toDouble? with
    | some x, some y =>
      match o.onDoubles? x y with
      | some z => .ok (.double z)
      | none => .error (.outsideDomain o.symbol)
    | _, _ => .error (.tooLarge o.symbol)

end ArithmeticOperator

namespace Operator

/-- An arithmetic operator on any values. A text on the left of a plus is continued by the text of
the right operand. -/
def applyArithmetic (o : ArithmeticOperator) (v w : Value) : Except OperatorFault Value :=
  match o, v with
  | .add, .string s =>
    match w.text? with
    | some t => .ok (.string (s ++ t))
    | none => .error .tooLong
  | _, _ =>
    -- The types count before the divisor does.
    if !(v.isNumber && w.isNumber) then .error (.undefined o.symbol v.type w.type)
    else if o.dividesBy && w.isZero then .error .divisionByZero
    else o.onNumbers v w

/-- Two numbers or two texts have an order. -/
def areOrdered : Value → Value → Bool
  | .string _, .string _ => true
  | v, w => v.isNumber && w.isNumber

def apply : Operator → Value → Value → Except OperatorFault Value
  | equal, v, w => .ok (.boolean (v.equals w))
  | notEqual, v, w => .ok (.boolean (!v.equals w))
  | order o, v, w =>
    if areOrdered v w then .ok (.boolean (o.holds (v.compare? w)))
    else .error (.undefined o.symbol v.type w.type)
  | arithmetic o, v, w => applyArithmetic o v w

end Operator

/-- The value of an operator that is given by the way it is written. -/
def applySymbol (symbol : String) (v w : Value) : Except OperatorFault Value :=
  match Operator.ofSymbol? symbol with
  | some o => o.apply v w
  | none =>
    if v.isNumber && w.isNumber then .error (.unknown symbol)
    else .error (.undefined symbol v.type w.type)

def negate : Value → Except OperatorFault Value
  | .int n => .ok (.int (-n))
  | .double x => .ok (.double (-x))
  | v => .error (.notNegatable v.type)

end ScriptRunner
