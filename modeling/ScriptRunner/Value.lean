import ScriptRunner.Number.Decimal
import ScriptRunner.Text.CodePoint

/-!
# Script values

## Main definitions

* `Value`, `ValueType` - what an expression evaluates to, and its type.
* `Value.text?` - the text that printing shows.
* `intDigitLimit` - the longest integer that is written or read in decimal.
-/

namespace ScriptRunner

/-- What an expression of the script language evaluates to. Integers have any size. -/
inductive Value where
  | int (n : Int)
  | double (x : Float)
  | string (s : ScriptText)
  | boolean (b : Bool)
  deriving Repr, Inhabited

inductive ValueType where
  | int
  | double
  | string
  | boolean
  deriving DecidableEq, Repr

def ValueType.name : ValueType → String
  | int => "Int"
  | double => "Double"
  | string => "String"
  | boolean => "Boolean"

/-- The greatest number of decimal digits of an integer that is written or read. -/
def intDigitLimit : Nat := 4300

def intText (n : Int) : String :=
  String.ofList ((if n < 0 then ['-'] else []) ++ Nat.toDigits 10 n.natAbs)

/-- An integer has at most `intDigitLimit` decimal digits. -/
def IsWritable (n : Int) : Prop := n.natAbs < tenPow intDigitLimit

instance (n : Int) : Decidable (IsWritable n) := inferInstanceAs (Decidable (_ < _))

namespace Value

def type : Value → ValueType
  | int _ => .int
  | double _ => .double
  | string _ => .string
  | boolean _ => .boolean

/-- Integers and doubles are numbers; truth values are not. -/
def isNumber : Value → Bool
  | int _ | double _ => true
  | _ => false

/-- Doubles are positional from `0.0001` up to below `10 ^ 16`, and an exponent has two digits or
more. -/
def doubleStyle : DecimalStyle := ⟨-4, 16, 2⟩

/-- The text that printing shows, or nothing for an integer with too many digits. -/
def text? : Value → Option ScriptText
  | int n => if IsWritable n then some (intText n) else none
  | double x => some (doubleText doubleStyle x)
  | string s => some s
  | boolean b => some (if b then "true" else "false" : String)

theorem text?_eq_none_iff (v : Value) : v.text? = none ↔ ∃ n, v = int n ∧ ¬ IsWritable n := by
  cases v with
  | int n => by_cases h : IsWritable n <;> simp [text?, h]
  | _ => simp [text?]

end Value

end ScriptRunner
