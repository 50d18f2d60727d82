import ScriptRunner.Text.Printable

/-!
# Quoted text

The form of a text in messages that must show where it starts and ends: between quotes, with escapes
for the quote, the backslash and every character that would not show.

## Main definitions

* `quoteFor` - the quote that a text is written with.
* `quoted` - the quoted form of a text.
* `quotedList` - the quoted forms of several texts, between square brackets.

## Design notes

A text stands between apostrophes. Only a text that has an apostrophe and no double quote stands
between double quotes.
-/

namespace ScriptRunner.Text

/-- The quote that a text is written with. -/
def quoteFor (cs : List Char) : Char :=
  if cs.contains '\'' && !cs.contains '"' then '"' else '\''

/-- The hexadecimal digits of a code, with zeros in front up to a width. -/
def hexDigits (width code : Nat) : List Char :=
  let digits := Nat.toDigits 16 code
  List.replicate (width - digits.length) '0' ++ digits

/-- The escape of a character that does not show: the shortest of three widths that holds it. -/
def hexEscape (c : Char) : List Char :=
  if c.toNat < 0x100 then '\\' :: 'x' :: hexDigits 2 c.toNat
  else if c.toNat < 0x10000 then '\\' :: 'u' :: hexDigits 4 c.toNat
  else '\\' :: 'U' :: hexDigits 8 c.toNat

/-- The form of a character between quotes. -/
def quotedChar (quote c : Char) : List Char :=
  if c = quote ∨ c = '\\' then ['\\', c]
  else if c = '\t' then ['\\', 't']
  else if c = '\n' then ['\\', 'n']
  else if c = '\r' then ['\\', 'r']
  else if isPrintable c then [c]
  else hexEscape c

/-- The quoted form of a text. -/
def quoted (s : String) : String :=
  let quote := quoteFor s.toList
  String.ofList (quote :: s.toList.flatMap (quotedChar quote) ++ [quote])

/-- The quoted forms of texts, with commas between them, in square brackets. -/
def quotedList (ss : List String) : String :=
  "[" ++ ", ".intercalate (ss.map quoted) ++ "]"

example : quoted "a'b" = "\"a'b\"" := by decide +kernel
example : quoted "a\n\x07" = "'a\\n\\x07'" := by decide +kernel

end ScriptRunner.Text
