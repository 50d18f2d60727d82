import ScriptRunner.Text.CodePoint

/-!
# Text encodings

From the bytes of a file to its text, and the first place where the bytes stand for no text. Which
encodings there are is a parameter of whatever reads files.

## Main definitions

* `DecodeFault`, `DecodeError` - why bytes are no text.
* `Codec`, `Codecs` - the texts that bytes stand for in an encoding, and in any encoding by its
  name.
* `Encoding`, `Encoding.decode` - some encodings, and the characters that bytes stand for in them.
* `Codecs.standard` - these encodings under one name each.
* `unifyLineEnds` - every way to end a line becomes a line feed.
* `encodeFault?` - why a text that scripts compute with has no bytes.

## Design notes

A faulty range of UTF-8 is the longest start of a character that the bytes agree with: the byte that
breaks it off is not part of it.
-/

namespace ScriptRunner.Text

inductive Encoding where
  | utf8
  /-- UTF-8 with a signature that is left out of the text. -/
  | utf8Signed
  | latin1
  | ascii
  | utf16
  deriving DecidableEq, Repr

def Encoding.name : Encoding → String
  | utf8 => "utf-8"
  | utf8Signed => "utf-8-sig"
  | latin1 => "latin-1"
  | ascii => "ascii"
  | utf16 => "utf-16"

def Encoding.all : List Encoding := [utf8, utf8Signed, latin1, ascii, utf16]

def Encoding.ofName? (name : String) : Option Encoding :=
  all.find? (·.name == name)

/-- What is wrong with a range of bytes. -/
inductive DecodeReason where
  | invalidStart
  | invalidContinuation
  | unexpectedEnd
  | notAscii
  | truncated
  | loneLowSurrogate
  | brokenSurrogatePair
  /-- What another encoding finds wrong. -/
  | other (message : String)
  deriving DecidableEq, Repr

def DecodeReason.message : DecodeReason → String
  | invalidStart => "invalid start byte"
  | invalidContinuation => "invalid continuation byte"
  | unexpectedEnd => "unexpected end of data"
  | notAscii => "ordinal not in range(128)"
  | truncated => "truncated data"
  | loneLowSurrogate => "illegal encoding"
  | brokenSurrogatePair => "illegal UTF-16 surrogate"
  | other message => message

/-- A faulty range of bytes: the encoding in use, the place of its first byte and that byte, the
number of its bytes, and what is wrong. -/
structure DecodeFault where
  encoding : String
  first : Nat
  byte : UInt8
  count : Nat
  reason : DecodeReason
  deriving DecidableEq, Repr

/-- Two hexadecimal digits of a byte. -/
def byteDigits (b : UInt8) : List Char :=
  [Nat.digitChar (b.toNat / 16), Nat.digitChar (b.toNat % 16)]

def DecodeFault.message (f : DecodeFault) : String :=
  let place :=
    if f.count = 1 then s!"byte 0x{String.ofList (byteDigits f.byte)} in position {f.first}"
    else s!"bytes in position {f.first}-{f.first + f.count - 1}"
  s!"'{f.encoding}' codec can't decode {place}: {f.reason.message}"

/-- Why bytes are no text. -/
inductive DecodeError where
  | malformed (fault : DecodeFault)
  /-- An error of another kind, which is neither of the disk nor of a place in the bytes. -/
  | failed (kind message : String)
  deriving DecidableEq, Repr

def DecodeError.message : DecodeError → String
  | malformed fault => fault.message
  | failed _ message => message

/-- The error of an encoding that is not known. -/
def DecodeError.unknownEncoding (name : String) : DecodeError :=
  .failed "LookupError" s!"unknown encoding: {name}"

/-- The error of UTF-16 without a byte order mark. -/
def DecodeError.noByteOrderMark : DecodeError :=
  .failed "UnicodeError" "UTF-16 stream does not start with BOM"

/-- The characters that bytes stand for. -/
abbrev Codec := List UInt8 → Except DecodeError (List Char)

/-- What is known of encodings: the codec that goes by a name. -/
abbrev Codecs := String → Codec

/-- Between characters, or inside a character: its first byte and that byte's place, the number of
bytes it still owes, the least and the greatest next byte, and the bits read so far. -/
inductive Utf8State where
  | between
  | inside (lead : UInt8) (first owed low high code : Nat)
  deriving DecidableEq, Repr

/-- The state after the first byte of a character, if the byte can be one: the state is `between`
for a character of one byte. -/
def utf8Lead (place : Nat) (b : UInt8) : Option Utf8State :=
  let n := b.toNat
  if n < 0x80 then some .between
  -- The bytes below 0xC2 go on with a character, or would start an overlong one.
  else if n < 0xC2 then none
  else if n < 0xE0 then some (.inside b place 1 0x80 0xBF (n - 0xC0))
  else if n < 0xF0 then
    let low := if n = 0xE0 then 0xA0 else 0x80
    -- Surrogates are no characters.
    let high := if n = 0xED then 0x9F else 0xBF
    some (.inside b place 2 low high (n - 0xE0))
  else if n < 0xF5 then
    let low := if n = 0xF0 then 0x90 else 0x80
    let high := if n = 0xF4 then 0x8F else 0xBF
    some (.inside b place 3 low high (n - 0xF0))
  else none

/-- The characters of UTF-8, the first byte standing at a place. -/
def decodeUtf8 (state : Utf8State) (place : Nat) : List UInt8 → Except DecodeFault (List Char)
  | [] =>
    match state with
    | .between => .ok []
    | .inside lead first _ _ _ _ => .error ⟨"utf-8", first, lead, place - first, .unexpectedEnd⟩
  | b :: rest =>
    match state with
    | .between =>
      match utf8Lead place b with
      | none => .error ⟨"utf-8", place, b, 1, .invalidStart⟩
      | some .between => do
        let cs ← decodeUtf8 .between (place + 1) rest
        return Char.ofNat b.toNat :: cs
      | some inner => decodeUtf8 inner (place + 1) rest
    | .inside lead first owed low high code =>
      if low ≤ b.toNat ∧ b.toNat ≤ high then
        let code := 64 * code + b.toNat % 64
        if owed = 1 then do
          let cs ← decodeUtf8 .between (place + 1) rest
          return Char.ofNat code :: cs
        else decodeUtf8 (.inside lead first (owed - 1) 0x80 0xBF code) (place + 1) rest
      else .error ⟨"utf-8", first, lead, place - first, .invalidContinuation⟩

def utf8Signature : List UInt8 := [0xEF, 0xBB, 0xBF]

/-- The characters of UTF-8 without a signature at the start. A text that breaks off inside the
signature is empty, and places count from the end of the signature. -/
def decodeUtf8Signed (bytes : List UInt8) : Except DecodeFault (List Char) :=
  if bytes.length < 3 ∧ bytes.isPrefixOf utf8Signature then .ok []
  else if utf8Signature.isPrefixOf bytes then decodeUtf8 .between 0 (bytes.drop 3)
  else decodeUtf8 .between 0 bytes

/-- The characters of Latin-1: each byte is the code of a character. -/
def decodeLatin1 (bytes : List UInt8) : List Char :=
  bytes.map fun b => Char.ofNat b.toNat

/-- The characters of ASCII, the first byte standing at a place. -/
def decodeAscii (place : Nat) : List UInt8 → Except DecodeFault (List Char)
  | [] => .ok []
  | b :: rest =>
    if b.toNat < 128 then do
      let cs ← decodeAscii (place + 1) rest
      return Char.ofNat b.toNat :: cs
    else .error ⟨"ascii", place, b, 1, .notAscii⟩

inductive ByteOrder where
  | little
  | big
  deriving DecidableEq, Repr

/-- The name of UTF-16 with a byte order. -/
def ByteOrder.encodingName : ByteOrder → String
  | little => "utf-16-le"
  | big => "utf-16-be"

/-- The unit that two bytes make up. -/
def ByteOrder.unit : ByteOrder → UInt8 → UInt8 → Nat
  | little, a, b => a.toNat + 256 * b.toNat
  | big, a, b => 256 * a.toNat + b.toNat

/-- The characters of UTF-16, the first byte standing at a place. -/
def decodeUtf16 (order : ByteOrder) (place : Nat) : List UInt8 → Except DecodeFault (List Char)
  | [] => .ok []
  | [a] => .error ⟨order.encodingName, place, a, 1, .truncated⟩
  | a :: b :: rest =>
    let unit := order.unit a b
    if unit < 0xD800 ∨ 0xDFFF < unit then do
      let cs ← decodeUtf16 order (place + 2) rest
      return Char.ofNat unit :: cs
    else if 0xDC00 ≤ unit then .error ⟨order.encodingName, place, a, 2, .loneLowSurrogate⟩
    else
      match rest with
      | c :: d :: rest =>
        let low := order.unit c d
        if 0xDC00 ≤ low ∧ low ≤ 0xDFFF then do
          let cs ← decodeUtf16 order (place + 4) rest
          return Char.ofNat (0x10000 + 0x400 * (unit - 0xD800) + (low - 0xDC00)) :: cs
        else .error ⟨order.encodingName, place, a, 2, .brokenSurrogatePair⟩
      | rest => .error ⟨order.encodingName, place, a, 2 + rest.length, .unexpectedEnd⟩

/-- The characters of UTF-16 behind its byte order mark. Without one the bytes are read with the low
byte first, for the sake of the faults in them; if there is none, the mark is what is missing. -/
def decodeUtf16Marked : List UInt8 → Except DecodeError (List Char)
  | 0xFF :: 0xFE :: rest => (decodeUtf16 .little 2 rest).mapError .malformed
  | 0xFE :: 0xFF :: rest => (decodeUtf16 .big 2 rest).mapError .malformed
  | bytes =>
    match decodeUtf16 .little 0 bytes with
    | .error fault => .error (.malformed fault)
    | .ok [] => .ok []
    | .ok _ => .error .noByteOrderMark

def Encoding.decode : Encoding → Codec
  | utf8, bytes => (decodeUtf8 .between 0 bytes).mapError .malformed
  | utf8Signed, bytes => (decodeUtf8Signed bytes).mapError .malformed
  | latin1, bytes => .ok (decodeLatin1 bytes)
  | ascii, bytes => (decodeAscii 0 bytes).mapError .malformed
  | utf16, bytes => decodeUtf16Marked bytes

/-- The encodings above, each under its name, and no other ones. -/
def Codecs.standard : Codecs := fun name bytes =>
  match Encoding.ofName? name with
  | none => .error (.unknownEncoding name)
  | some e => e.decode bytes

/-- A text whose lines all end with a line feed alone. -/
def unifyLineEnds : List Char → List Char
  | [] => []
  | '\r' :: '\n' :: cs => '\n' :: unifyLineEnds cs
  | '\r' :: cs => '\n' :: unifyLineEnds cs
  | c :: cs => c :: unifyLineEnds cs

/-- No carriage return is left. -/
theorem not_mem_unifyLineEnds (cs : List Char) : '\r' ∉ unifyLineEnds cs := by
  fun_induction unifyLineEnds cs with
  | case1 => simp
  | case2 cs ih => simp [ih]
  | case3 cs _ ih => simp [ih]
  | case4 c cs _ hc ih =>
    rw [List.mem_cons, not_or]
    exact ⟨fun h => hc h.symm, ih⟩

/-- Why a text has no bytes in UTF-8: halves of surrogate pairs that follow each other, the first of
them standing at a place. -/
structure EncodeFault where
  first : Nat
  half : CodePoint
  count : Nat
  deriving DecidableEq, Repr

def EncodeFault.message (f : EncodeFault) : String :=
  let place :=
    if f.count = 1 then
      s!"character '\\u{String.ofList (Nat.toDigits 16 f.half.code)}' in position {f.first}"
    else s!"characters in position {f.first}-{f.first + f.count - 1}"
  s!"'utf-8' codec can't encode {place}: surrogates not allowed"

/-- The first halves of surrogate pairs in a text. -/
def encodeFault? (t : ScriptText) : Option EncodeFault :=
  match t.dropWhile (!·.isSurrogate) with
  | [] => none
  | half :: rest =>
    some ⟨(t.takeWhile (!·.isSurrogate)).length, half,
      1 + (rest.takeWhile (·.isSurrogate)).length⟩

theorem encodeFault?_eq_none_iff (t : ScriptText) :
    encodeFault? t = none ↔ ∀ p ∈ t, p.isSurrogate = false := by
  have hdrop : t.dropWhile (!·.isSurrogate) = [] ↔ ∀ p ∈ t, p.isSurrogate = false := by
    induction t with
    | nil => simp
    | cons p t ih => cases h : p.isSurrogate <;> simp [h, ih]
  rw [← hdrop, encodeFault?]
  split <;> simp_all

end ScriptRunner.Text
