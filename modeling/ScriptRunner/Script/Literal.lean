import ScriptRunner.Number.Decimal
import ScriptRunner.Script.Syntax

/-!
# Values of literals

## Main definitions

* `LiteralFault`, `LiteralFault.message` - why a literal has no value.
* `numberValue` - integers and doubles.
* `stringContent` - the text that a string literal denotes. Names of characters are a parameter.
* `Written.value` - any literal.

## Design notes

A fault in an escape is placed in a form of the text in which every character outside ASCII takes
the ten places of `\UXXXXXXXX`, and a backslash directly before such a character takes six.
-/

namespace ScriptRunner.Script

/-- What is wrong with an escape in a string literal. -/
inductive EscapeFault where
  | truncatedByte
  | truncatedShort
  | truncatedLong
  /-- A number beyond the last character. -/
  | noCharacter
  /-- No name in braces after `\N`. -/
  | malformedName
  | unknownName
  deriving DecidableEq, Repr

/-- A bad escape between two places of a string literal, both included. -/
structure BadEscape where
  fault : EscapeFault
  first : Nat
  last : Nat
  deriving DecidableEq, Repr

/-- Why a literal has no value. -/
inductive LiteralFault where
  /-- An integer with this many digits, more than are read. -/
  | tooManyDigits (count : Nat)
  | nul
  /-- A carriage return that ends the literal, on this line of it. -/
  | unterminated (line : Nat)
  /-- A bad escape in a literal that ends on a line of its own count. -/
  | escape (bad : BadEscape) (line : Nat)
  deriving DecidableEq, Repr

def EscapeFault.message : EscapeFault → String
  | truncatedByte => "truncated \\xXX escape"
  | truncatedShort => "truncated \\uXXXX escape"
  | truncatedLong => "truncated \\UXXXXXXXX escape"
  | noCharacter => "illegal Unicode character"
  | malformedName => "malformed \\N character escape"
  | unknownName => "unknown Unicode character name"

def LiteralFault.message : LiteralFault → String
  | tooManyDigits count =>
    s!"Exceeds the limit ({intDigitLimit} digits) for integer string conversion: " ++
      s!"value has {count} digits; use sys.set_int_max_str_digits() to increase the limit"
  | nul => "source code string cannot contain null bytes"
  | unterminated line =>
    s!"unterminated string literal (detected at line {line}) (<unknown>, line 1)"
  | escape ⟨fault, first, last⟩ line =>
    s!"(unicode error) 'unicodeescape' codec can't decode bytes in position {first}-{last}: " ++
      s!"{fault.message} (<unknown>, line {line})"

def digitValue (c : Char) : Nat :=
  c.toNat - '0'.toNat

/-- The number that decimal digits denote. -/
def digitsValue (cs : List Char) : Nat :=
  cs.foldl (fun n c => 10 * n + digitValue c) 0

/-- The number that an exponent denotes, its sign included. -/
def exponentValue : List Char → Int
  | '-' :: digits => -(digitsValue digits : Int)
  | '+' :: digits => digitsValue digits
  | digits => digitsValue digits

/-- The letter that starts an exponent. -/
def isExponentLetter (c : Char) : Bool :=
  c == 'e' || c == 'E'

/-- The decimal that a number with a point or an exponent denotes. -/
def decimalOf (text : List Char) : Decimal :=
  let mantissa := text.takeWhile (!isExponentLetter ·)
  let exponent := exponentValue (text.dropWhile (!isExponentLetter ·)).tail
  let whole := mantissa.takeWhile Char.isDigit
  let fraction := (mantissa.dropWhile Char.isDigit).tail
  ⟨digitsValue (whole ++ fraction), exponent - fraction.length⟩

/-- The value of a number: a double if it has a point or an exponent, else an integer. -/
def numberValue (text : List Char) : Except LiteralFault Value :=
  if text.all Char.isDigit then
    if text.length ≤ intDigitLimit then .ok (.int (digitsValue text))
    else .error (.tooManyDigits text.length)
  else .ok (.double (decimalOf text).toFloat)

def isAscii (c : Char) : Bool :=
  c.toNat < 128

/-- The number of places that a character takes when faults are placed. -/
def placesOf (c : Char) : Nat :=
  if isAscii c then 1 else 10

def hexValue? (c : Char) : Option Nat :=
  if c.isDigit then some (digitValue c)
  else if 'a' ≤ c ∧ c ≤ 'f' then some (c.toNat - 'a'.toNat + 10)
  else if 'A' ≤ c ∧ c ≤ 'F' then some (c.toNat - 'A'.toNat + 10)
  else none

/-- At most `count` hexadecimal digits: how many there are, their value and the rest. -/
def takeHex : (count read value : Nat) → List Char → Nat × Nat × List Char
  | 0, read, value, cs => (read, value, cs)
  | _ + 1, read, value, [] => (read, value, [])
  | count + 1, read, value, c :: cs =>
    match hexValue? c with
    | some digit => takeHex count (read + 1) (16 * value + digit) cs
    | none => (read, value, c :: cs)

def isOctal (c : Char) : Bool :=
  '0' ≤ c && c ≤ '7'

/-- The characters that a backslash and one letter denote. -/
def simpleEscape? : Char → Option Char
  | '\\' => some '\\'
  | '\'' => some '\''
  | '"' => some '"'
  | 'a' => some '\x07'
  | 'b' => some '\x08'
  | 'f' => some '\x0c'
  | 'n' => some '\n'
  | 'r' => some '\r'
  | 't' => some '\t'
  | 'v' => some '\x0b'
  | _ => none

/-- The escapes with a fixed number of hexadecimal digits, and the fault of having too few. -/
def hexEscape? : Char → Option (Nat × EscapeFault)
  | 'x' => some (2, .truncatedByte)
  | 'u' => some (4, .truncatedShort)
  | 'U' => some (8, .truncatedLong)
  | _ => none

/-- The number of places of a text. A backslash takes the next character of ASCII with it, and six
places before any other. -/
def placesOfAll : List Char → Nat
  | [] => 0
  | '\\' :: c :: cs => if isAscii c then 2 + placesOfAll cs else 6 + placesOfAll (c :: cs)
  | c :: cs => placesOf c + placesOfAll cs

/-- What a backslash denotes together with the text after it. -/
inductive Escape where
  /-- A part of the content, the places taken, and the rest. -/
  | content (points : ScriptText) (places : Nat) (rest : List Char)
  | fault (bad : BadEscape)

theorem takeHex_length_le (count read value : Nat) (cs : List Char) :
    (takeHex count read value cs).2.2.length ≤ cs.length := by
  fun_induction takeHex count read value cs <;> simp_all
  omega

variable [CharacterNames]

/-- What `\N` at place `first` denotes before the rest of the literal: the character whose name
stands in braces. -/
def namedEscape (first : Nat) : List Char → Escape
  | '\x7b' :: cs =>
    let name := cs.takeWhile (· != '\x7d')
    if name.length = cs.length then
      .fault ⟨.malformedName, first, first + 2 + placesOfAll name⟩
    else if name = [] then .fault ⟨.malformedName, first, first + 2⟩
    else
      match CharacterNames.find? name with
      | some p => .content [p] (4 + placesOfAll name) (cs.drop (name.length + 1))
      | none => .fault ⟨.unknownName, first, first + 3 + placesOfAll name⟩
  | _ => .fault ⟨.malformedName, first, first + 1⟩

/-- Work out the escape whose backslash is at place `first`, from the text after the backslash. A
carriage return continues the literal; unknown escapes stand for themselves. -/
def escapeAt (first : Nat) : List Char → Escape
  | [] => .content [.ofChar '\\'] 6 []
  | c :: cs =>
    if !isAscii c then .content [.ofChar '\\'] 6 (c :: cs)
    else if c = '\r' then .content [] 2 cs
    else if isOctal c then
      let digits := c :: (cs.take 2).takeWhile isOctal
      let code := digits.foldl (fun n d => 8 * n + digitValue d) 0
      .content (CodePoint.ofNat? code).toList (1 + digits.length) (cs.drop (digits.length - 1))
    else if c = 'N' then namedEscape first cs
    else
      match simpleEscape? c, hexEscape? c with
      | some e, _ => .content [.ofChar e] 2 cs
      | none, some (count, fault) =>
        let (read, value, rest) := takeHex count 0 0 cs
        if read < count then .fault ⟨fault, first, first + 1 + read⟩
        else
          match CodePoint.ofNat? value with
          | some p => .content [p] (2 + count) rest
          | none => .fault ⟨.noCharacter, first, first + 1 + count⟩
      | none, none => .content [.ofChar '\\', .ofChar c] 2 cs

theorem namedEscape_length_le {first places : Nat} {cs rest : List Char} {points : ScriptText}
    (h : namedEscape first cs = .content points places rest) : rest.length ≤ cs.length := by
  simp only [namedEscape] at h
  split at h
  · split at h
    · simp at h
    split at h
    · simp at h
    split at h
    · simp only [Escape.content.injEq] at h
      obtain ⟨-, -, rfl⟩ := h
      simp
      omega
    · simp at h
  · simp at h

/-- An escape leaves no more text than follows its backslash. -/
theorem escapeAt_length_le {first places : Nat} {cs rest : List Char} {points : ScriptText}
    (h : escapeAt first cs = .content points places rest) : rest.length ≤ cs.length := by
  cases cs with
  | nil => simp_all [escapeAt]
  | cons c cs =>
    simp only [escapeAt] at h
    split at h
    · simp_all
    split at h
    · simp_all
    split at h
    · simp only [Escape.content.injEq] at h
      obtain ⟨-, -, rfl⟩ := h
      simp
      omega
    split at h
    · exact Nat.le_succ_of_le (namedEscape_length_le h)
    split at h
    · simp_all
    · next count fault _ _ =>
      split at h
      · simp at h
      split at h
      · simp only [Escape.content.injEq] at h
        obtain ⟨-, -, rfl⟩ := h
        exact Nat.le_succ_of_le (takeHex_length_le count 0 0 cs)
      · simp at h
    · simp_all

/-- The content of a literal from place `first` on. -/
def contentFrom (first : Nat) (cs : List Char) : Except BadEscape ScriptText :=
  match cs with
  | [] => .ok []
  | c :: cs =>
    if c = '\\' then
      match _h : escapeAt first cs with
      | .content points places rest =>
        match contentFrom (first + places) rest with
        | .ok content => .ok (points ++ content)
        | .error fault => .error fault
      | .fault bad => .error bad
    else
      match contentFrom (first + placesOf c) cs with
      | .ok content => .ok (.ofChar c :: content)
      | .error fault => .error fault
termination_by cs.length
decreasing_by
  · have := escapeAt_length_le _h
    simp
    omega
  · simp

/-- The line of the first carriage return that has no backslash before it, if there is one; the
others start new lines. -/
def bareReturn? (line : Nat) : List Char → Option Nat
  | [] => none
  | '\\' :: '\r' :: cs => bareReturn? (line + 1) cs
  | '\\' :: _ :: cs => bareReturn? line cs
  | '\r' :: _ => some line
  | _ :: cs => bareReturn? line cs

/-- The line on which a literal ends, counted from the one on which it starts: each carriage return
starts a new one. -/
def lastLine (body : List Char) : Nat :=
  1 + body.count '\r'

/-- The content of a literal between its quotes. -/
def contentOf (body : List Char) : Except LiteralFault ScriptText :=
  if body.contains '\x00' then .error .nul
  else
    match bareReturn? 1 body with
    | some line => .error (.unterminated line)
    | none => (contentFrom 0 body).mapError fun bad => .escape bad (lastLine body)

/-- The text that a string literal denotes. -/
def stringContent (text : List Char) : Except LiteralFault ScriptText :=
  contentOf text.tail.dropLast

def Written.value : Written → Except LiteralFault Value
  | number text => numberValue text
  | string text =>
    match stringContent text with
    | .ok s => .ok (.string s)
    | .error fault => .error fault
  | truth b => .ok (.boolean b)

end ScriptRunner.Script
