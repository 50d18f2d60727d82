import ScriptRunner.Proofs.Script.Names

/-!
# The languages of the terminals

What each terminal looks like, and that the scanner of a terminal takes the longest text that looks
so.

## Main definitions

* `IsNumber`, `IsString`, `IsLineEnds`, `Terminal.Spells` - the texts of terminals.
* `TakesLongest` - a way to take a text takes the longest one of a language.

## Main statements

* `takesLongest_takeNumber`, `takesLongest_takeString`, `takesLongest_takeName` - the scanners of
  numbers, strings and names take the longest text.
-/

namespace ScriptRunner.Script

/-- At least one digit. -/
def IsDigits (text : List Char) : Prop :=
  text ≠ [] ∧ ∀ c ∈ text, c.isDigit = true

/-- A letter `e`, a sign if there is one, and digits. -/
inductive IsExponent : List Char → Prop
  | mk {letter : Char} {sign digits : List Char} (hletter : letter = 'e' ∨ letter = 'E')
    (hsign : sign = [] ∨ sign = ['+'] ∨ sign = ['-']) (hdigits : IsDigits digits) :
    IsExponent (letter :: (sign ++ digits))

/-- Digits around a point, on one side of it at least. -/
inductive IsDecimal : List Char → Prop
  | ofWhole {whole fraction : List Char} (hwhole : IsDigits whole)
    (hfraction : fraction = [] ∨ IsDigits fraction) : IsDecimal (whole ++ '.' :: fraction)
  | ofFraction {fraction : List Char} (hfraction : IsDigits fraction) :
    IsDecimal ('.' :: fraction)

/-- Digits or a decimal, with an exponent if there is one. -/
inductive IsNumber : List Char → Prop
  | ofDigits {digits exponent : List Char} (hdigits : IsDigits digits)
    (hexponent : exponent = [] ∨ IsExponent exponent) : IsNumber (digits ++ exponent)
  | ofDecimal {decimal exponent : List Char} (hdecimal : IsDecimal decimal)
    (hexponent : exponent = [] ∨ IsExponent exponent) : IsNumber (decimal ++ exponent)

/-- A string literal after its opening quote: it ends with a quote, other quotes have a backslash
before them, and it holds no line feed. -/
inductive IsStringRest : List Char → Prop
  | close : IsStringRest ['"']
  | plain {c : Char} {cs : List Char} (hquote : c ≠ '"') (hbackslash : c ≠ '\\')
    (hfeed : c ≠ '\n') (hrest : IsStringRest cs) : IsStringRest (c :: cs)
  | escape {c : Char} {cs : List Char} (hfeed : c ≠ '\n') (hrest : IsStringRest cs) :
    IsStringRest ('\\' :: c :: cs)

/-- A string literal. -/
def IsString (text : List Char) : Prop :=
  ∃ rest, text = '"' :: rest ∧ IsStringRest rest

/-- Line ends in a row: line feeds, each with a carriage return before it or without. -/
inductive IsLineEnds : List Char → Prop
  | feed : IsLineEnds ['\n']
  | feed_cons {cs : List Char} (hrest : IsLineEnds cs) : IsLineEnds ('\n' :: cs)
  | return_cons {cs : List Char} (hrest : IsLineEnds ('\n' :: cs)) :
    IsLineEnds ('\r' :: '\n' :: cs)

/-- Blanks in a row. -/
def IsBlanks (text : List Char) : Prop :=
  text ≠ [] ∧ ∀ c ∈ text, isBlank c = true

/-- A comment without its line end. -/
def IsComment (text : List Char) : Prop :=
  ∃ cs, text = '#' :: cs ∧ '\n' ∉ cs

/-- The texts of a terminal. -/
def Terminal.Spells : Terminal → List Char → Prop
  | lineEnd, text => IsLineEnds text
  | mark m, text => text = m.text
  | operator o, text => text = o.symbol.toList
  | keyword k, text => text = k.text
  | name, text => IsName text
  | number, text => IsNumber text
  | string, text => IsString text

/-- A way to take a text takes texts of a language only, and wherever there is one to take it does
not take a shorter one. -/
structure TakesLongest (L : List Char → Prop)
    (take : List Char → Option (List Char × List Char)) : Prop where
  sound : ∀ {cs text rest}, take cs = some (text, rest) → L text
  longest : ∀ {text} rest, L text → ∃ text' rest', take (text ++ rest) = some (text', rest') ∧
    text.length ≤ text'.length

theorem takesLongest_takeText (text : List Char) : TakesLongest (· = text) (takeText text) where
  sound h := by
    unfold takeText at h
    split at h
    · exact (Prod.mk.inj (Option.some.inj h)).1.symm
    · simp at h
  longest := by
    rintro _ rest rfl
    exact ⟨_, _, if_pos (List.isPrefixOf_iff_prefix.2 (List.prefix_append ..)), Nat.le_refl _⟩

theorem takesLongest_takeName : TakesLongest IsName takeName where
  sound := isName_of_takeName
  longest := by
    rintro _ rest ⟨c, cs, rfl, hc, hcs⟩
    refine ⟨c :: (cs ++ rest.takeWhile isNameRest), rest.dropWhile isNameRest, ?_, by simp⟩
    simp [takeName, hc, List.takeWhile_append_of_pos hcs, List.dropWhile_append_of_pos hcs]

theorem takeDigits_eq_none {cs : List Char} :
    takeDigits cs = none ↔ ∀ c ∈ cs.head?, c.isDigit = false := by
  cases cs with
  | nil => simp [takeDigits]
  | cons c cs => by_cases hc : c.isDigit <;> simp [takeDigits, hc]

/-- Digits are taken as far as they go. -/
theorem takeDigits_append {digits : List Char} (h : IsDigits digits) (rest : List Char) :
    takeDigits (digits ++ rest) =
      some (digits ++ rest.takeWhile Char.isDigit, rest.dropWhile Char.isDigit) := by
  unfold takeDigits
  rw [List.takeWhile_append_of_pos h.2, List.dropWhile_append_of_pos h.2]
  split
  next heq => exact absurd (List.append_eq_nil_iff.1 heq).1 h.1
  · rfl

theorem takesLongest_takeDigits : TakesLongest IsDigits takeDigits where
  sound h := by
    refine ⟨(takes_takeDigits _ _ _ h).2, fun c hc => ?_⟩
    unfold takeDigits at h
    split at h
    · simp at h
    · obtain ⟨rfl, -⟩ := Prod.mk.inj (Option.some.inj h)
      exact List.all_eq_true.1 List.all_takeWhile c hc
  longest rest h := ⟨_, _, takeDigits_append h rest, by simp⟩

theorem takeSign_append_digits {sign digits : List Char}
    (hsign : sign = [] ∨ sign = ['+'] ∨ sign = ['-']) (hdigits : IsDigits digits)
    (rest : List Char) : takeSign (sign ++ (digits ++ rest)) = (sign, digits ++ rest) := by
  rcases hsign with rfl | rfl | rfl
  · obtain ⟨hne, hdigit⟩ := hdigits
    cases digits with
    | nil => simp at hne
    | cons c digits =>
      have hc := hdigit c List.mem_cons_self
      unfold takeSign
      split
      next heq => simp_all
      next heq => simp_all
      · rfl
  · rfl
  · rfl

theorem takesLongest_takeExponent : TakesLongest IsExponent takeExponent where
  sound {cs text rest} h := by
    cases cs with
    | nil => simp [takeExponent] at h
    | cons c cs =>
      simp only [takeExponent] at h
      split at h
      next hletter =>
        split at h
        next digits rest' hdigits =>
          obtain ⟨rfl, -⟩ := by simpa using h
          refine .mk hletter ?_ (takesLongest_takeDigits.sound hdigits)
          unfold takeSign
          split <;> simp
        · simp at h
      · simp at h
  longest := by
    rintro _ rest ⟨hletter, hsign, hdigits⟩
    rename_i letter sign digits
    have htake : takeExponent (letter :: (sign ++ (digits ++ rest))) =
        some (letter :: sign ++ (digits ++ rest.takeWhile Char.isDigit),
          rest.dropWhile Char.isDigit) := by
      simp only [takeExponent]
      rw [if_pos hletter, takeSign_append_digits hsign hdigits rest]
      simp only [takeDigits_append hdigits]
    exact ⟨_, _, by simpa using htake, by simp⟩

theorem IsExponent.head {text : List Char} (h : IsExponent text) :
    ∃ c cs, text = c :: cs ∧ c.isDigit = false ∧ c ≠ '.' := by
  obtain ⟨rfl | rfl, -, -⟩ := h <;> exact ⟨_, _, rfl, by decide, by decide⟩

/-- An exponent that follows is taken, and nothing that came before is lost. -/
theorem length_withExponent (text : List Char) {exponent : List Char}
    (h : exponent = [] ∨ IsExponent exponent) (rest : List Char) :
    text.length + exponent.length ≤ (withExponent text (exponent ++ rest)).1.length := by
  unfold withExponent
  rcases h with rfl | h
  · split <;> simp
  · obtain ⟨taken, after, htake, hlength⟩ := takesLongest_takeExponent.longest rest h
    rw [htake]
    simpa using hlength

theorem exponent_withExponent (text rest : List Char) :
    ∃ exponent, (withExponent text rest).1 = text ++ exponent ∧
      (exponent = [] ∨ IsExponent exponent) := by
  unfold withExponent
  split
  next exponent after h => exact ⟨exponent, rfl, .inr (takesLongest_takeExponent.sound h)⟩
  · exact ⟨[], by simp, .inl rfl⟩

/-- Digits in front of what does not go on with a digit. -/
theorem takeWhile_digits {digits rest : List Char} (h : ∀ c ∈ digits, c.isDigit = true)
    (hrest : ∀ c ∈ rest.head?, c.isDigit = false) :
    (digits ++ rest).takeWhile Char.isDigit = digits ∧
      (digits ++ rest).dropWhile Char.isDigit = rest := by
  rw [List.takeWhile_append_of_pos h, List.dropWhile_append_of_pos h]
  cases rest with
  | nil => simp
  | cons c rest => simp [hrest c rfl]

theorem isDigits_or_nil_takeWhile (cs : List Char) :
    cs.takeWhile Char.isDigit = [] ∨ IsDigits (cs.takeWhile Char.isDigit) :=
  or_iff_not_imp_left.2 fun h => ⟨h, fun c hc => List.all_eq_true.1 List.all_takeWhile c hc⟩

theorem isNumber_of_takeNumber {cs text rest : List Char} (h : takeNumber cs = some (text, rest)) :
    IsNumber text := by
  unfold takeNumber at h
  split at h
  next digits afterDigits htake =>
    have hdigits := takesLongest_takeDigits.sound htake
    split at h
    next exponent after hexponent =>
      obtain ⟨rfl, rfl⟩ := by simpa using h
      exact .ofDigits hdigits (.inr (takesLongest_takeExponent.sound hexponent))
    next fraction _ =>
      obtain ⟨exponent, heq, hexponent⟩ := exponent_withExponent
        (digits ++ '.' :: fraction.takeWhile Char.isDigit) (fraction.dropWhile Char.isDigit)
      rw [Option.some.inj h] at heq
      obtain rfl : text = _ := heq
      exact .ofDecimal (.ofWhole hdigits (isDigits_or_nil_takeWhile fraction)) hexponent
    · obtain ⟨rfl, rfl⟩ := by simpa using h
      simpa using IsNumber.ofDigits hdigits (.inl rfl)
  · split at h
    next fraction =>
      split at h
      next digits rest' hdigits =>
        obtain ⟨exponent, heq, hexponent⟩ := exponent_withExponent ('.' :: digits) rest'
        rw [Option.some.inj h] at heq
        obtain rfl : text = _ := heq
        exact .ofDecimal (.ofFraction (takesLongest_takeDigits.sound hdigits)) hexponent
      · simp at h
    · simp at h

theorem takeNumber_of_takeDigits {cs digits rest : List Char}
    (h : takeDigits cs = some (digits, rest)) :
    ∃ text rest', takeNumber cs = some (text, rest') ∧ digits.length ≤ text.length := by
  unfold takeNumber
  rw [h]
  dsimp only
  split
  · exact ⟨_, _, rfl, by simp⟩
  next fraction _ =>
    have hlength := length_withExponent (digits ++ '.' :: fraction.takeWhile Char.isDigit)
      (.inl rfl) (fraction.dropWhile Char.isDigit)
    refine ⟨_, _, rfl, Nat.le_trans ?_ hlength⟩
    simp
  · exact ⟨_, _, rfl, Nat.le_refl _⟩

/-- Digits and an exponent behind a text are taken together with it. -/
theorem length_withExponent_digits {digits exponent : List Char}
    (hdigits : ∀ c ∈ digits, c.isDigit = true) (hexponent : exponent = [] ∨ IsExponent exponent)
    (text rest : List Char) : text.length + digits.length + exponent.length ≤
      (withExponent (text ++ (digits ++ (exponent ++ rest)).takeWhile Char.isDigit)
        ((digits ++ (exponent ++ rest)).dropWhile Char.isDigit)).1.length := by
  rcases hexponent with rfl | hexponent
  · have hlength := length_withExponent (text ++ (digits ++ rest).takeWhile Char.isDigit) (.inl rfl)
      ((digits ++ rest).dropWhile Char.isDigit)
    simp only [List.nil_append, List.length_nil, Nat.add_zero] at hlength ⊢
    refine Nat.le_trans ?_ hlength
    rw [List.takeWhile_append_of_pos hdigits]
    simp
  · obtain ⟨c, cs, rfl, hc, -⟩ := hexponent.head
    obtain ⟨htake, hdrop⟩ := takeWhile_digits hdigits
      (show ∀ d ∈ (c :: cs ++ rest).head?, d.isDigit = false by simp [hc])
    rw [htake, hdrop]
    simpa using length_withExponent (text ++ digits) (.inr hexponent) rest

theorem takeNumber_exponent {cs digits rest exponent after : List Char}
    (hdigits : takeDigits cs = some (digits, rest))
    (hexponent : takeExponent rest = some (exponent, after)) :
    takeNumber cs = some (digits ++ exponent, after) := by
  simp [takeNumber, hdigits, hexponent]

theorem takeNumber_point {cs digits fraction : List Char}
    (hdigits : takeDigits cs = some (digits, '.' :: fraction)) :
    takeNumber cs = some (withExponent (digits ++ '.' :: fraction.takeWhile Char.isDigit)
      (fraction.dropWhile Char.isDigit)) := by
  have hexponent : takeExponent ('.' :: fraction) = none := by simp [takeExponent]
  simp [takeNumber, hdigits, hexponent]

theorem takeNumber_fraction {fraction digits rest : List Char}
    (hdigits : takeDigits fraction = some (digits, rest)) :
    takeNumber ('.' :: fraction) = some (withExponent ('.' :: digits) rest) := by
  have hnone : takeDigits ('.' :: fraction) = none := takeDigits_eq_none.2 (by simp)
  simp [takeNumber, hnone, hdigits]

theorem takesLongest_takeNumber : TakesLongest IsNumber takeNumber where
  sound := isNumber_of_takeNumber
  longest := by
    rintro _ rest (⟨hdigits, rfl | hexponent⟩ | ⟨⟨hwhole, hfraction⟩ | hfraction, hexponent⟩)
    · obtain ⟨text, rest', htake, hlength⟩ :=
        takeNumber_of_takeDigits (takeDigits_append hdigits rest)
      refine ⟨text, rest', by simpa using htake, ?_⟩
      rw [List.append_nil]
      simp at hlength
      omega
    · rename_i digits exponent
      obtain ⟨taken, after, htake, hlength⟩ := takesLongest_takeExponent.longest rest hexponent
      obtain ⟨c, cs, rfl, hc, -⟩ := hexponent.head
      have hfirst := takeDigits_append hdigits (c :: cs ++ rest)
      simp [hc] at hfirst
      refine ⟨digits ++ taken, after, takeNumber_exponent ?_ htake, by simpa using hlength⟩
      simpa using hfirst
    · rename_i exponent digits fraction
      have hfraction : ∀ c ∈ fraction, c.isDigit = true := by
        rcases hfraction with rfl | h
        · simp
        · exact h.2
      have hfirst := takeDigits_append hwhole ('.' :: (fraction ++ (exponent ++ rest)))
      have hlength := length_withExponent_digits hfraction hexponent (digits ++ ['.']) rest
      simp at hfirst
      refine ⟨(withExponent _ _).1, (withExponent _ _).2,
        takeNumber_point (by simpa using hfirst), ?_⟩
      simp at hlength ⊢
      omega
    · rename_i exponent fraction
      have hlength := length_withExponent_digits hfraction.2 hexponent ['.'] rest
      have hfirst := takeDigits_append hfraction (exponent ++ rest)
      refine ⟨(withExponent _ _).1, (withExponent _ _).2,
        takeNumber_fraction (by simpa using hfirst), ?_⟩
      rw [List.takeWhile_append_of_pos hfraction.2, List.dropWhile_append_of_pos hfraction.2]
        at hlength
      simp at hlength ⊢
      omega

theorem takeStringRest_append {text : List Char} (h : IsStringRest text) (rest : List Char) :
    takeStringRest (text ++ rest) = some (text, rest) := by
  induction h with
  | close => rfl
  | plain hquote hbackslash hfeed hrest ih => simp [takeStringRest, hbackslash, ih]
  | escape hfeed hrest ih => simp [takeStringRest, ih]

theorem isStringRest_of_takeStringRest {cs text rest : List Char}
    (h : takeStringRest cs = some (text, rest)) : IsStringRest text := by
  fun_induction takeStringRest cs generalizing text rest with
  | case2 cs =>
    obtain ⟨rfl, -⟩ := by simpa using h
    exact .close
  | case5 c cs hfeed text' rest' hrest ih =>
    obtain ⟨rfl, -⟩ := by simpa using h
    exact .escape (by simpa using hfeed) (ih hrest)
  | case7 c cs hquote hfeed _ hescape text' rest' hrest ih =>
    obtain ⟨rfl, -⟩ := by simpa using h
    -- A backslash needs a character behind it, and then it would have been an escape.
    have hbackslash : c ≠ '\\' := by
      rintro rfl
      cases cs with
      | nil => simp [takeStringRest] at hrest
      | cons d cs => exact hescape d cs rfl rfl
    exact .plain hquote hbackslash hfeed (ih hrest)
  | _ => simp at h

theorem takesLongest_takeString : TakesLongest IsString takeString where
  sound h := by
    unfold takeString at h
    split at h
    · split at h
      next text' rest' hrest =>
        obtain ⟨rfl, -⟩ := by simpa using h
        exact ⟨_, rfl, isStringRest_of_takeStringRest hrest⟩
      · simp at h
    · simp at h
  longest := by
    rintro _ rest ⟨text, rfl, htext⟩
    have htake : takeString ('"' :: text ++ rest) = some ('"' :: text, rest) := by
      simp [takeString, takeStringRest_append htext]
    exact ⟨_, _, htake, Nat.le_refl _⟩

end ScriptRunner.Script
