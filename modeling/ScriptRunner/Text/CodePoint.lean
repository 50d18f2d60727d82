/-!
# Code points

The texts that scripts compute with. An escape in a string literal may denote half of a surrogate
pair, which is a code point but no character, so such a text is a list of code points.

## Main definitions

* `CodePoint`, `CodePoint.ofChar`, `CodePoint.toChar?` - code points and characters.
* `ScriptText`, `ScriptText.ofString` - texts of scripts, and strings as such texts.
* `ScriptText.shown` - a string for any text.
* `ScriptText.ofLines` - lines as they are written.
* `CharacterNames` - the names of characters.
-/

namespace ScriptRunner

/-- A code point of Unicode. -/
structure CodePoint where
  code : Nat
  code_lt : code < 0x110000
  deriving DecidableEq, Repr

namespace CodePoint

/-- The code point with a code, if there is one. -/
def ofNat? (code : Nat) : Option CodePoint :=
  if h : code < 0x110000 then some ⟨code, h⟩ else none

theorem toNat_lt (c : Char) : c.toNat < 0x110000 := by
  have hvalid := c.valid
  simp only [UInt32.isValidChar, Nat.isValidChar] at hvalid
  simp only [Char.toNat]
  omega

def ofChar (c : Char) : CodePoint := ⟨c.toNat, toNat_lt c⟩

/-- A half of a surrogate pair. -/
def isSurrogate (p : CodePoint) : Bool :=
  0xD800 ≤ p.code && p.code ≤ 0xDFFF

/-- The character with a code point, unless it is half of a surrogate pair. -/
def toChar? (p : CodePoint) : Option Char :=
  if p.isSurrogate then none else some (Char.ofNat p.code)

theorem isSurrogate_ofChar (c : Char) : (ofChar c).isSurrogate = false := by
  have hvalid := c.valid
  simp only [UInt32.isValidChar, Nat.isValidChar] at hvalid
  rw [isSurrogate, ← Bool.decide_and, decide_eq_false_iff_not]
  simp only [ofChar, Char.toNat]
  omega

@[simp] theorem toChar?_ofChar (c : Char) : (ofChar c).toChar? = some c := by
  rw [toChar?, isSurrogate_ofChar, if_neg Bool.false_ne_true]
  exact congrArg some (Char.ofNat_toNat c)

theorem ofChar_injective : Function.Injective ofChar := by
  intro c d h
  have hchars : some c = some d := by rw [← toChar?_ofChar c, h, toChar?_ofChar]
  exact Option.some.inj hchars

instance : Ord CodePoint := ⟨fun p q => compare p.code q.code⟩

end CodePoint

/-- A text that a script computes with. -/
abbrev ScriptText := List CodePoint

namespace ScriptText

def ofString (s : String) : ScriptText :=
  s.toList.map .ofChar

instance : Coe String ScriptText := ⟨ofString⟩

/-- A string for any text. Halves of surrogate pairs become replacement characters. -/
def shown (t : ScriptText) : String :=
  String.ofList (t.map fun p => p.toChar?.getD '\uFFFD')

@[simp] theorem shown_ofString (s : String) : (ofString s).shown = s := by
  simp [shown, ofString, Function.comp_def]

/-- The text of lines, each with a line feed behind it. -/
def ofLines (lines : List ScriptText) : ScriptText :=
  lines.flatMap (· ++ [.ofChar '\n'])

end ScriptText

/-- The names of characters that scripts may use in escapes. -/
class CharacterNames where
  /-- The code point of the character with a name. -/
  find? : List Char → Option CodePoint

/-- No character has a name. -/
abbrev CharacterNames.none : CharacterNames := ⟨fun _ => .none⟩

end ScriptRunner
