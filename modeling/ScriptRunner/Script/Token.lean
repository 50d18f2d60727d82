import ScriptRunner.Source
import ScriptRunner.Value.Operator

/-!
# Tokens of the script language

A text is read token by token. Which token is read depends on what may stand at that place: the
terminals that are allowed there are tried in a fixed order, so that `println` is a keyword at the
start of a statement and a plain name after `val`. Only when none of them fits, every terminal is
tried, to name the offending token.

## Main definitions

* `Terminal`, `Terminal.match?` - the kinds of tokens, and the text that each takes.
* `blankRun` - spaces and comments between tokens.
* `Scan`, `scan` - the next token of a text, given what is allowed.

## Design notes

A carriage return counts as a blank, so a line ends at its line feed however it is written.
-/

namespace ScriptRunner.Script

/-- Words that are no names where a keyword may stand. -/
inductive Keyword where
  | val
  | println
  | truth (b : Bool)
  deriving DecidableEq, Repr

inductive Mark where
  | atSign
  | colon
  | openParen
  | closeParen
  | dot
  | semicolon
  | assign
  deriving DecidableEq, Repr

inductive Terminal where
  | lineEnd
  | mark (m : Mark)
  | operator (o : Operator)
  | keyword (k : Keyword)
  | name
  | number
  | string
  deriving DecidableEq, Repr

def Keyword.text : Keyword → List Char
  | val => "val".toList
  | println => "println".toList
  | truth true => "true".toList
  | truth false => "false".toList

def Mark.text : Mark → List Char
  | atSign => ['@']
  | colon => [':']
  | openParen => ['(']
  | closeParen => [')']
  | dot => ['.']
  | semicolon => [';']
  | assign => ['=']

/-- Minus, which stands both before an operand and between two. -/
def Terminal.minus : Terminal := operator (.arithmetic .subtract)

/-- Every terminal, in the order in which they are tried: a longer text before a shorter one that it
starts with, and keywords before names. -/
def Terminal.all : List Terminal :=
  [string, number, keyword .val, keyword .println, keyword (.truth true), keyword (.truth false),
    name, lineEnd]
    ++ Operator.all.map operator
    ++ [mark .atSign, mark .colon, mark .openParen, mark .closeParen, mark .dot, mark .semicolon,
        mark .assign]

/-- A fixed text at the start of another: that text and the rest. -/
def takeText (text cs : List Char) : Option (List Char × List Char) :=
  if text.isPrefixOf cs then some (text, cs.drop text.length) else none

/-- Letters of names, digits aside. -/
def isNameStart (c : Char) : Bool :=
  c.isAlpha || c == '_'

/-- Characters of names after the first. -/
def isNameRest (c : Char) : Bool :=
  c.isAlphanum || c == '_'

/-- The longest name at the start of a text. -/
def takeName : List Char → Option (List Char × List Char)
  | [] => none
  | c :: cs =>
    if isNameStart c then some (c :: cs.takeWhile isNameRest, cs.dropWhile isNameRest) else none

/-- A keyword is a name that is written like the keyword. -/
def takeKeyword (k : Keyword) (cs : List Char) : Option (List Char × List Char) :=
  match takeName cs with
  | some (word, rest) => if word = k.text then some (word, rest) else none
  | none => none

/-- A run of at least one digit. -/
def takeDigits (cs : List Char) : Option (List Char × List Char) :=
  match cs.takeWhile Char.isDigit with
  | [] => none
  | digits => some (digits, cs.dropWhile Char.isDigit)

/-- The sign of an exponent, if there is one. -/
def takeSign : List Char → List Char × List Char
  | '+' :: cs => (['+'], cs)
  | '-' :: cs => (['-'], cs)
  | cs => ([], cs)

/-- An exponent: the letter, a sign if there is one, and digits. -/
def takeExponent : List Char → Option (List Char × List Char)
  | [] => none
  | c :: cs =>
    if c = 'e' ∨ c = 'E' then
      let (sign, afterSign) := takeSign cs
      match takeDigits afterSign with
      | some (digits, rest) => some (c :: sign ++ digits, rest)
      | none => none
    else none

/-- A text that is continued by an exponent if one follows. -/
def withExponent (text rest : List Char) : List Char × List Char :=
  match takeExponent rest with
  | some (exponent, after) => (text ++ exponent, after)
  | none => (text, rest)

/-- A number: digits with an exponent, or digits around a point with an exponent if one follows, or
digits alone. A point needs digits on one side. -/
def takeNumber (cs : List Char) : Option (List Char × List Char) :=
  match takeDigits cs with
  | some (digits, rest) =>
    match takeExponent rest, rest with
    | some (exponent, after), _ => some (digits ++ exponent, after)
    | none, '.' :: fraction =>
      some (withExponent (digits ++ '.' :: fraction.takeWhile Char.isDigit)
        (fraction.dropWhile Char.isDigit))
    | none, _ => some (digits, rest)
  | none =>
    match cs with
    | '.' :: fraction =>
      match takeDigits fraction with
      | some (digits, rest) => some (withExponent ('.' :: digits) rest)
      | none => none
    | _ => none

/-- The rest of a string literal after its opening quote. A backslash takes the next character with
it, and a line feed ends the search. -/
def takeStringRest : List Char → Option (List Char × List Char)
  | [] => none
  | '"' :: cs => some (['"'], cs)
  | '\n' :: _ => none
  | '\\' :: '\n' :: _ => none
  | '\\' :: c :: cs =>
    match takeStringRest cs with
    | some (text, rest) => some ('\\' :: c :: text, rest)
    | none => none
  | c :: cs =>
    match takeStringRest cs with
    | some (text, rest) => some (c :: text, rest)
    | none => none

/-- A string literal with its quotes. -/
def takeString : List Char → Option (List Char × List Char)
  | '"' :: cs =>
    match takeStringRest cs with
    | some (text, rest) => some ('"' :: text, rest)
    | none => none
  | _ => none

/-- The text of a terminal at the start of a text, and the rest. -/
def Terminal.match? : Terminal → List Char → Option (List Char × List Char)
  | lineEnd, cs => takeText ['\n'] cs
  | mark m, cs => takeText m.text cs
  | operator o, cs => takeText o.symbol.toList cs
  | keyword k, cs => takeKeyword k cs
  | name, cs => takeName cs
  | number, cs => takeNumber cs
  | string, cs => takeString cs

/-- Blanks inside a line. -/
def isBlank (c : Char) : Bool :=
  c == ' ' || c == '\t' || c == '\x0c' || c == '\r'

/-- A character belongs to the blanks and comments around it. -/
def isBetweenTokens (inComment : Bool) (c : Char) : Bool :=
  if inComment then c != '\n' else isBlank c || c == '#'

/-- The blanks and comments at the start of a text, and the rest. A comment starts with `#` and ends
before the line feed; `inComment` says that one has started. -/
def blankRun : (inComment : Bool) → List Char → List Char × List Char
  | _, [] => ([], [])
  | inComment, c :: cs =>
    if isBetweenTokens inComment c then
      let (blanks, rest) := blankRun (inComment || c == '#') cs
      (c :: blanks, rest)
    else ([], c :: cs)

/-- A token: its kind, its text and its place. -/
structure Token where
  terminal : Terminal
  text : List Char
  span : Span
  deriving DecidableEq, Repr

/-- The first terminal of a list, in order, that fits the start of a text. -/
def firstMatch (terminals : List Terminal) (cs : List Char) :
    Option (Terminal × List Char × List Char) :=
  terminals.findSome? fun t => (t.match? cs).map (t, ·)

/-- What stands at a place of a text. -/
inductive Scan where
  /-- An allowed terminal, its text, and the rest. -/
  | token (terminal : Terminal) (text rest : List Char)
  /-- A terminal that is not allowed, and its text. -/
  | unexpected (terminal : Terminal) (text : List Char)
  /-- The start of no terminal. -/
  | unknown

/-- What stands at the start of a text where only some terminals are allowed. -/
def scan (allowed : Terminal → Bool) (cs : List Char) : Scan :=
  match firstMatch (Terminal.all.filter allowed) cs with
  | some (t, text, rest) => .token t text rest
  | none =>
    match firstMatch Terminal.all cs with
    | some (t, text, _) => .unexpected t text
    | none => .unknown

/-- A way to take a text from the start of another: what is taken and the rest make up the input,
and something is taken. -/
def Takes (take : List Char → Option (List Char × List Char)) : Prop :=
  ∀ cs text rest, take cs = some (text, rest) → text ++ rest = cs ∧ text ≠ []

theorem takes_takeText {text : List Char} (h : text ≠ []) : Takes (takeText text) := by
  intro cs out rest hout
  unfold takeText at hout
  split at hout
  next hp =>
    obtain ⟨rfl, rfl⟩ := by simpa using hout
    obtain ⟨t, rfl⟩ := List.isPrefixOf_iff_prefix.1 hp
    simp [h]
  next => simp at hout

theorem takes_takeName : Takes takeName := by
  intro cs text rest h
  cases cs with
  | nil => simp [takeName] at h
  | cons c cs =>
    by_cases hc : isNameStart c
    · obtain ⟨rfl, rfl⟩ := by simpa [takeName, hc] using h
      simp
    · simp [takeName, hc] at h

theorem takes_takeKeyword (k : Keyword) : Takes (takeKeyword k) := by
  intro cs text rest h
  unfold takeKeyword at h
  split at h
  next word rest' hname =>
    split at h
    · obtain ⟨rfl, rfl⟩ := by simpa using h
      exact takes_takeName _ _ _ hname
    · simp at h
  next => simp at h

theorem takes_takeDigits : Takes takeDigits := by
  intro cs text rest h
  unfold takeDigits at h
  split at h
  next => simp at h
  next digits hne =>
    obtain ⟨rfl, rfl⟩ := by simpa using h
    exact ⟨List.takeWhile_append_dropWhile, hne⟩

theorem takeSign_append (cs : List Char) : (takeSign cs).1 ++ (takeSign cs).2 = cs := by
  unfold takeSign
  split <;> rfl

theorem takes_takeExponent : Takes takeExponent := by
  intro cs text rest h
  cases cs with
  | nil => simp [takeExponent] at h
  | cons c cs =>
    simp only [takeExponent] at h
    split at h
    next =>
      split at h
      next digits rest' hdigits =>
        obtain ⟨rfl, rfl⟩ := by simpa using h
        have hsign := takeSign_append cs
        have happ := (takes_takeDigits _ _ _ hdigits).1
        simp [happ, hsign]
      next => simp at h
    next => simp at h

theorem withExponent_append (text rest : List Char) :
    (withExponent text rest).1 ++ (withExponent text rest).2 = text ++ rest := by
  unfold withExponent
  split
  next exponent after h => simp [(takes_takeExponent _ _ _ h).1]
  next => rfl

theorem withExponent_ne_nil {text : List Char} (rest : List Char) (h : text ≠ []) :
    (withExponent text rest).1 ≠ [] := by
  unfold withExponent
  split <;> simp [h]

theorem takes_takeNumber : Takes takeNumber := by
  intro cs text rest h
  unfold takeNumber at h
  split at h
  next digits afterDigits hdigits =>
    obtain ⟨happ, hne⟩ := takes_takeDigits _ _ _ hdigits
    subst happ
    split at h
    next exponent after hexponent =>
      obtain ⟨rfl, rfl⟩ := by simpa using h
      simp [hne, (takes_takeExponent _ _ _ hexponent).1]
    next fraction _ =>
      have hpair := Option.some.inj h
      have happ := withExponent_append (digits ++ '.' :: fraction.takeWhile Char.isDigit)
        (fraction.dropWhile Char.isDigit)
      have hstart := withExponent_ne_nil (fraction.dropWhile Char.isDigit)
        (show digits ++ '.' :: fraction.takeWhile Char.isDigit ≠ [] by simp)
      rw [hpair] at happ hstart
      exact ⟨by simpa using happ, hstart⟩
    next =>
      obtain ⟨rfl, rfl⟩ := by simpa using h
      exact ⟨rfl, hne⟩
  next =>
    split at h
    next fraction =>
      split at h
      next digits rest' hdigits =>
        have hpair := Option.some.inj h
        have happ := withExponent_append ('.' :: digits) rest'
        have hstart := withExponent_ne_nil rest' (show '.' :: digits ≠ [] by simp)
        rw [hpair] at happ hstart
        exact ⟨by simpa [(takes_takeDigits _ _ _ hdigits).1] using happ, hstart⟩
      next => simp at h
    next => simp at h

theorem takes_takeStringRest : Takes takeStringRest := by
  intro cs
  fun_induction takeStringRest cs <;> intro text rest h
  case case2 =>
    obtain ⟨rfl, rfl⟩ := by simpa using h
    simp
  case case5 hrest ih =>
    obtain ⟨rfl, rfl⟩ := by simpa using h
    simp [(ih _ _ hrest).1]
  case case7 hrest ih =>
    obtain ⟨rfl, rfl⟩ := by simpa using h
    simp [(ih _ _ hrest).1]
  all_goals simp at h

theorem takes_takeString : Takes takeString := by
  intro cs text rest h
  unfold takeString at h
  split at h
  next cs =>
    split at h
    next text' rest' hrest =>
      obtain ⟨rfl, rfl⟩ := by simpa using h
      simp [(takes_takeStringRest _ _ _ hrest).1]
    next => simp at h
  next => simp at h

theorem Operator.symbol_ne_nil (o : Operator) : o.symbol.toList ≠ [] := by
  rcases o with _ | _ | o | o
  · decide
  · decide
  · cases o <;> decide
  · cases o <;> decide

/-- Every terminal takes a text from the start of the input. -/
theorem Terminal.takes_match? (t : Terminal) : Takes t.match? := by
  cases t with
  | lineEnd => exact takes_takeText (by simp)
  | mark m => exact takes_takeText (by cases m <;> simp [Mark.text])
  | operator o => exact takes_takeText (Operator.symbol_ne_nil o)
  | keyword k => exact takes_takeKeyword k
  | name => exact takes_takeName
  | number => exact takes_takeNumber
  | string => exact takes_takeString

theorem firstMatch_eq_some {terminals : List Terminal} {cs : List Char} {t : Terminal}
    {text rest : List Char} (h : firstMatch terminals cs = some (t, text, rest)) :
    t ∈ terminals ∧ t.match? cs = some (text, rest) := by
  obtain ⟨u, hu, hmap⟩ := List.exists_of_findSome?_eq_some h
  obtain ⟨⟨text', rest'⟩, hmatch, heq⟩ := Option.map_eq_some_iff.1 hmap
  obtain ⟨rfl, rfl, rfl⟩ := by simpa using heq
  exact ⟨hu, hmatch⟩

/-- A token that is read is allowed, and it takes its text from the start of the input. -/
theorem scan_eq_token {allowed : Terminal → Bool} {cs text rest : List Char} {t : Terminal}
    (h : scan allowed cs = .token t text rest) :
    allowed t = true ∧ text ++ rest = cs ∧ text ≠ [] := by
  unfold scan at h
  split at h
  next t' text' rest' hmatch =>
    obtain ⟨rfl, rfl, rfl⟩ := by simpa using h
    obtain ⟨hmem, hmatch⟩ := firstMatch_eq_some hmatch
    exact ⟨(List.mem_filter.1 hmem).2, Terminal.takes_match? _ _ _ _ hmatch⟩
  next => split at h <;> simp at h

theorem scan_shortens {allowed : Terminal → Bool} {cs text rest : List Char} {t : Terminal}
    (h : scan allowed cs = .token t text rest) : rest.length < cs.length := by
  obtain ⟨-, rfl, hne⟩ := scan_eq_token h
  have := List.length_pos_iff.2 hne
  simp
  omega

theorem blankRun_append (inComment : Bool) (cs : List Char) :
    (blankRun inComment cs).1 ++ (blankRun inComment cs).2 = cs := by
  induction cs generalizing inComment with
  | nil => rfl
  | cons c cs ih =>
    unfold blankRun
    split
    · simp [ih]
    · rfl

theorem blankRun_length_le (inComment : Bool) (cs : List Char) :
    (blankRun inComment cs).2.length ≤ cs.length := by
  have := congrArg List.length (blankRun_append inComment cs)
  simp at this
  omega

end ScriptRunner.Script
