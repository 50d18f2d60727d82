import Mathlib.Data.Nat.Find
import ScriptRunner.Proofs.Script.Spelling

/-!
# The next lexeme

Which text is cut off next where several terminals fit: the longest, and a keyword before a name of
the same length. The scanner tries the terminals in an order that comes to the same.

## Main definitions

* `Lexeme`, `Lexeme.Spells` - terminals, and what stands between them.
* `Munch` - the lexeme that a text starts with where some terminals are allowed.
* `Terminal.RanksBefore` - why a terminal that is tried later takes no more.

## Main statements

* `Munch.unique`, `exists_munch` - at most one lexeme comes next, and one does if any fits.
* `Terminal.pairwise_all` - the order in which the terminals are tried.
* `munch_of_scan`, `Munch.scan_eq` - the scanner takes the next lexeme.
-/

namespace ScriptRunner.Script

/-- What a text is cut into. -/
inductive Lexeme where
  | blanks
  | comment
  | token (t : Terminal)

/-- The texts of a lexeme. -/
def Lexeme.Spells : Lexeme → List Char → Prop
  | blanks, text => IsBlanks text
  | comment, text => IsComment text
  | token t, text => t.Spells text

/-- Blanks and comments are allowed everywhere. -/
def Lexeme.Allowed (allowed : Terminal → Prop) : Lexeme → Prop
  | blanks | comment => True
  | token t => allowed t

/-- The lexeme that a text starts with where some terminals are allowed: no lexeme that is allowed
takes more, and it is no name where a keyword with that text is allowed. -/
structure Munch (allowed : Terminal → Prop) (cs : List Char) (l : Lexeme) (text rest : List Char) :
    Prop where
  split : text ++ rest = cs
  spells : l.Spells text
  isAllowed : l.Allowed allowed
  longest : ∀ l' text', Lexeme.Allowed allowed l' → l'.Spells text' → text' <+: cs →
    text'.length ≤ text.length
  keyword_first : l = .token .name → ∀ k, allowed (.keyword k) → text ≠ k.text

/-- The kind of a character at the start of a lexeme; characters that no terminal tells apart there
have one representative. -/
def startKind (c : Char) : Char :=
  if isNameStart c then 'a'
  else if c.isDigit || c == '.' then '0'
  else if c == '\r' then '\n'
  else c

/-- The kind of the characters that a terminal starts with. -/
def Terminal.kind : Terminal → Char
  | lineEnd => '\n'
  | mark m => startKind (m.text.headD ' ')
  | operator o => startKind (o.symbol.toList.headD ' ')
  | keyword _ | name => 'a'
  | number => '0'
  | string => '"'

/-- The texts of these terminals are names. -/
def Terminal.isWord : Terminal → Bool
  | keyword _ | name => true
  | _ => false

/-- The text of a terminal that has only one, words aside. -/
def Terminal.fixed? : Terminal → Option (List Char)
  | mark m => some m.text
  | operator o => some o.symbol.toList
  | _ => none

theorem startKind_digit {c : Char} (h : c.isDigit = true) : startKind c = '0' := by
  have halpha : isNameStart c = false := by
    rw [Bool.eq_false_iff]
    intro hc
    rcases Bool.or_eq_true _ _ ▸ hc with hletter | hunderscore
    · delta Char.isAlpha Char.isUpper Char.isLower at hletter
      simp [Char.isDigit] at h hletter
      grind
    · obtain rfl := eq_of_beq hunderscore
      simp at h
  simp [startKind, halpha, h]

theorem Keyword.text_injective : Function.Injective Keyword.text := by
  intro k k' h
  rcases k with _ | _ | _ | _ <;> rcases k' with _ | _ | _ | _ <;>
    first | rfl | exact absurd h (by decide)

theorem Keyword.isName_text (k : Keyword) : IsName k.text := by
  rcases k with _ | _ | _ | _ <;>
    exact ⟨_, _, rfl, by decide, List.all_eq_true.1 (by decide)⟩

theorem IsDigits.head {text : List Char} (h : IsDigits text) :
    ∃ c cs, text = c :: cs ∧ c.isDigit = true := by
  obtain ⟨hne, hdigit⟩ := h
  cases text with
  | nil => simp at hne
  | cons c cs => exact ⟨c, cs, rfl, hdigit c List.mem_cons_self⟩

theorem IsNumber.head {text : List Char} (h : IsNumber text) :
    ∃ c cs, text = c :: cs ∧ startKind c = '0' := by
  obtain ⟨hdigits, -⟩ | ⟨⟨hwhole, -⟩ | -, -⟩ := h
  · obtain ⟨c, cs, rfl, hc⟩ := hdigits.head
    exact ⟨c, _, rfl, startKind_digit hc⟩
  · obtain ⟨c, cs, rfl, hc⟩ := hwhole.head
    exact ⟨c, _, rfl, startKind_digit hc⟩
  · exact ⟨'.', _, rfl, rfl⟩

theorem IsNumber.exists_digit {text : List Char} (h : IsNumber text) :
    ∃ c ∈ text, c.isDigit = true := by
  obtain ⟨hdigits, -⟩ | ⟨⟨hwhole, -⟩ | hfraction, -⟩ := h
  · obtain ⟨c, cs, rfl, hc⟩ := hdigits.head
    exact ⟨c, by simp, hc⟩
  · obtain ⟨c, cs, rfl, hc⟩ := hwhole.head
    exact ⟨c, by simp, hc⟩
  · obtain ⟨c, cs, rfl, hc⟩ := hfraction.head
    exact ⟨c, by simp, hc⟩

theorem Mark.not_isNumber_text (m : Mark) : ¬IsNumber m.text := by
  intro h
  obtain ⟨c, hc, hdigit⟩ := h.exists_digit
  cases m <;> (obtain rfl := List.mem_singleton.1 hc; simp at hdigit)

theorem IsLineEnds.mem {text : List Char} (h : IsLineEnds text) : '\n' ∈ text := by
  cases h <;> simp

theorem IsName.head {text : List Char} (h : IsName text) :
    ∃ c cs, text = c :: cs ∧ startKind c = 'a' := by
  obtain ⟨c, cs, rfl, hc, -⟩ := h
  exact ⟨c, cs, rfl, by simp [startKind, hc]⟩

theorem Terminal.Spells.head {t : Terminal} {text : List Char} (h : t.Spells text) :
    ∃ c cs, text = c :: cs ∧ startKind c = t.kind := by
  cases t with
  | lineEnd => cases h <;> exact ⟨_, _, rfl, rfl⟩
  | mark m =>
    obtain rfl : text = m.text := h
    cases m <;> exact ⟨_, _, rfl, rfl⟩
  | operator o =>
    obtain rfl : text = o.symbol.toList := h
    cases hsymbol : o.symbol.toList with
    | nil => exact absurd hsymbol (Operator.symbol_ne_nil o)
    | cons c cs => exact ⟨c, cs, rfl, by simp [Terminal.kind, hsymbol]⟩
  | keyword k =>
    obtain rfl : text = k.text := h
    exact k.isName_text.head
  | name => exact IsName.head h
  | number => exact IsNumber.head h
  | string =>
    obtain ⟨rest, rfl, -⟩ := h
    exact ⟨_, _, rfl, rfl⟩

theorem Terminal.mem_all (t : Terminal) : t ∈ Terminal.all := by
  rcases t with _ | m | o | k | _ | _ | _
  case mark => cases m <;> decide
  case operator => rcases o with _ | _ | o | o <;> first | decide | (cases o <;> decide)
  case keyword => rcases k with _ | _ | _ | _ <;> decide
  all_goals decide

/-- Only a line end starts with a character that may stand between tokens or that ends a line. -/
theorem Terminal.kind_ne {t : Terminal} (ht : t ≠ .lineEnd) {c : Char}
    (hc : isBetweenTokens false c = true ∨ c = '\n') : startKind c ≠ t.kind := by
  have hall : ∀ t ∈ Terminal.all, t ≠ .lineEnd →
      [' ', '\t', '\x0c', '\r', '#', '\n'].all (startKind · != t.kind) = true := by decide
  have hmem : c ∈ [' ', '\t', '\x0c', '\r', '#', '\n'] := by
    simpa [isBetweenTokens, isBlank, or_assoc] using hc
  exact bne_iff_ne.1 (List.all_eq_true.1 (hall t t.mem_all ht) c hmem)

/-- Where two terminals start alike, they are both words, or they have different fixed texts, or
they are a number and a point. -/
theorem Terminal.kind_inj : ∀ t ∈ Terminal.all, ∀ u ∈ Terminal.all, t.kind = u.kind → t = u ∨
    (t.isWord = true ∧ u.isWord = true) ∨
    (t.fixed?.isSome = true ∧ u.fixed?.isSome = true ∧ t.fixed? ≠ u.fixed?) ∨
    (t = .number ∧ u = .mark .dot) ∨ (t = .mark .dot ∧ u = .number) := by
  decide +kernel

/-- What makes it right to try a terminal before another: they do not start alike, or the other has
one character only, or they are both words and the first is a keyword. -/
abbrev Terminal.RanksBefore (t u : Terminal) : Prop :=
  t.kind ≠ u.kind ∨ (∃ text ∈ u.fixed?, text.length = 1) ∨
    (t.isWord = true ∧ u.isWord = true ∧ t ≠ .name)

theorem Terminal.pairwise_all : Terminal.all.Pairwise RanksBefore := by
  decide +kernel

/-- A keyword is taken where a name with its text is. -/
theorem takeKeyword_eq_some {k : Keyword} {cs text rest : List Char} :
    takeKeyword k cs = some (text, rest) ↔ takeName cs = some (text, rest) ∧ text = k.text := by
  unfold takeKeyword
  cases takeName cs with
  | none => simp
  | some taken =>
    obtain ⟨word, after⟩ := taken
    dsimp only
    split
    next hword => simp +contextual [← hword, eq_comm]
    next hword =>
      refine iff_of_false (by simp) ?_
      rintro ⟨h, rfl⟩
      exact hword (congrArg Prod.fst (Option.some.inj h))

namespace Terminal

variable {t u : Terminal} {cs text rest text' rest' : List Char}

theorem takesLongest_match? (ht : t ≠ .lineEnd) (hkeyword : ∀ k, t ≠ .keyword k) :
    TakesLongest t.Spells t.match? := by
  cases t with
  | lineEnd => exact absurd rfl ht
  | mark m => exact takesLongest_takeText m.text
  | operator o => exact takesLongest_takeText o.symbol.toList
  | keyword k => exact absurd rfl (hkeyword k)
  | name => exact takesLongest_takeName
  | number => exact takesLongest_takeNumber
  | string => exact takesLongest_takeString

theorem spells_of_match? (h : t.match? cs = some (text, rest)) : t.Spells text := by
  cases t with
  | lineEnd =>
    obtain rfl := (takesLongest_takeText _).sound h
    exact .feed
  | keyword k => exact (takeKeyword_eq_some.1 h).2
  | _ => exact (takesLongest_match? (by simp) (by simp)).sound h

/-- A word takes what a name takes. -/
theorem takeName_of_isWord (ht : t.isWord = true) (h : t.match? cs = some (text, rest)) :
    takeName cs = some (text, rest) := by
  cases t with
  | keyword k => exact (takeKeyword_eq_some.1 h).1
  | name => exact h
  | _ => simp [isWord] at ht

/-- The text of a terminal is found at the start of a text, though a name may take more than a
keyword. -/
theorem exists_match? (ht : t ≠ .lineEnd) (h : t.Spells text) (rest : List Char) :
    ∃ u text' rest', (u = t ∨ (∃ k, t = .keyword k) ∧ u = .name) ∧
      u.match? (text ++ rest) = some (text', rest') ∧ text.length ≤ text'.length := by
  by_cases hkeyword : ∃ k, t = .keyword k
  · obtain ⟨k, rfl⟩ := hkeyword
    obtain rfl : text = k.text := h
    obtain ⟨text', rest', hmatch, hle⟩ := takesLongest_takeName.longest rest k.isName_text
    exact ⟨.name, text', rest', .inr ⟨⟨k, rfl⟩, rfl⟩, hmatch, hle⟩
  · obtain ⟨text', rest', hmatch, hle⟩ :=
      (takesLongest_match? ht (not_exists.1 hkeyword)).longest rest h
    exact ⟨t, text', rest', .inl rfl, hmatch, hle⟩

theorem spells_of_fixed? (h : text ∈ t.fixed?) (h' : t.Spells text') : text' = text := by
  cases t with
  | mark m =>
    obtain rfl := Option.some.inj h
    exact h'
  | operator o =>
    obtain rfl := Option.some.inj h
    exact h'
  | _ => simp [fixed?] at h

/-- A terminal that is tried later takes no more. -/
theorem RanksBefore.length_le (hranks : t.RanksBefore u)
    (ht : t.match? cs = some (text, rest)) (hu : u.match? cs = some (text', rest')) :
    text'.length ≤ text.length := by
  obtain ⟨happ, hne⟩ := t.takes_match? _ _ _ ht
  obtain ⟨happ', -⟩ := u.takes_match? _ _ _ hu
  obtain hkind | ⟨word, hword, hlength⟩ | ⟨htword, huword, -⟩ := hranks
  · obtain ⟨c, ds, rfl, hc⟩ := (spells_of_match? ht).head
    obtain ⟨c', ds', rfl, hc'⟩ := (spells_of_match? hu).head
    obtain ⟨rfl, -⟩ := List.cons.inj (happ.trans happ'.symm)
    exact absurd (hc.symm.trans hc') hkind
  · rw [spells_of_fixed? hword (spells_of_match? hu), hlength]
    exact List.length_pos_iff.2 hne
  · have htake := takeName_of_isWord htword ht
    rw [takeName_of_isWord huword hu] at htake
    obtain ⟨rfl, -⟩ := by simpa using htake
    exact Nat.le_refl _

/-- A text is a text of two terminals only if it is a keyword and a name. -/
theorem eq_or_isWord_of_spells (h : t.Spells text) (h' : u.Spells text) :
    t = u ∨ (t.isWord = true ∧ u.isWord = true) := by
  obtain ⟨c, ds, rfl, hc⟩ := h.head
  obtain ⟨c', ds', heq, hc'⟩ := h'.head
  obtain ⟨rfl, rfl⟩ := List.cons.inj heq
  obtain htu | hword | ⟨ht, hu, hne⟩ | ⟨rfl, rfl⟩ | ⟨rfl, rfl⟩ :=
    kind_inj t t.mem_all u u.mem_all (hc.symm.trans hc')
  · exact .inl htu
  · exact .inr hword
  · obtain ⟨text, htext⟩ := Option.isSome_iff_exists.1 ht
    obtain ⟨text', htext'⟩ := Option.isSome_iff_exists.1 hu
    rw [htext, htext', ← spells_of_fixed? htext h, ← spells_of_fixed? htext' h'] at hne
    exact absurd rfl hne
  · have htext : c :: ds = Mark.dot.text := h'
    exact (Mark.not_isNumber_text _ (htext ▸ h)).elim
  · have htext : c :: ds = Mark.dot.text := h
    exact (Mark.not_isNumber_text _ (htext ▸ h')).elim

/-- No blank and no comment is a text of a terminal. -/
theorem Spells.not_between (h : t.Spells text) (hbetween : IsBlanks text ∨ IsComment text) :
    False := by
  obtain ⟨c, ds, rfl, hc⟩ := h.head
  by_cases ht : t = .lineEnd
  · subst ht
    rcases hbetween with ⟨-, hblank⟩ | ⟨cs, heq, -⟩
    · exact absurd (hblank _ (IsLineEnds.mem h)) (by decide)
    · obtain ⟨rfl, -⟩ := List.cons.inj heq
      exact absurd hc (by decide)
  · refine kind_ne ht (.inl ?_) hc
    rcases hbetween with ⟨-, hblank⟩ | ⟨cs, heq, -⟩
    · simp [isBetweenTokens, hblank c List.mem_cons_self]
    · obtain ⟨rfl, -⟩ := List.cons.inj heq
      rfl

end Terminal

section Munch

variable {allowed : Terminal → Prop} {cs text rest text' rest' : List Char} {l l' : Lexeme}

/-- A text is a text of two lexemes only if it is a keyword and a name. -/
theorem Lexeme.eq_or_isWord_of_spells (h : l.Spells text) (h' : l'.Spells text) : l = l' ∨
    ∃ t u : Terminal, l = .token t ∧ l' = .token u ∧ t.isWord = true ∧ u.isWord = true := by
  have hhash : ¬(IsBlanks text ∧ IsComment text) := by
    rintro ⟨⟨-, hblank⟩, cs, rfl, -⟩
    exact absurd (hblank '#' List.mem_cons_self) (by decide)
  cases l with
  | blanks =>
    cases l' with
    | blanks => exact .inl rfl
    | comment => exact absurd ⟨h, h'⟩ hhash
    | token u => exact (Terminal.Spells.not_between h' (.inl h)).elim
  | comment =>
    cases l' with
    | blanks => exact absurd ⟨h', h⟩ hhash
    | comment => exact .inl rfl
    | token u => exact (Terminal.Spells.not_between h' (.inr h)).elim
  | token t =>
    cases l' with
    | blanks => exact (Terminal.Spells.not_between h (.inl h')).elim
    | comment => exact (Terminal.Spells.not_between h (.inr h')).elim
    | token u =>
      obtain rfl | ⟨ht, hu⟩ := Terminal.eq_or_isWord_of_spells h h'
      · exact .inl rfl
      · exact .inr ⟨t, u, rfl, rfl, ht, hu⟩

/-- A lexeme that starts with no blank, no comment and no line end is a token. -/
theorem Lexeme.exists_token_of_spells (h : l.Spells text) {c : Char}
    (hsplit : text ++ rest = c :: cs) (hbetween : isBetweenTokens false c = false)
    (hfeed : c ≠ '\n') : ∃ t : Terminal, l = .token t ∧ t ≠ .lineEnd := by
  cases l with
  | blanks =>
    obtain ⟨hne, hblank⟩ := h
    cases text with
    | nil => exact absurd rfl hne
    | cons d ds =>
      obtain ⟨rfl, -⟩ := List.cons.inj hsplit
      simp [isBetweenTokens, hblank d List.mem_cons_self] at hbetween
  | comment =>
    obtain ⟨ds, rfl, -⟩ := h
    obtain ⟨rfl, -⟩ := List.cons.inj hsplit
    exact absurd hbetween (by decide)
  | token t =>
    refine ⟨t, rfl, ?_⟩
    rintro rfl
    cases h with
    | feed => exact hfeed (List.cons.inj hsplit).1.symm
    | feed_cons => exact hfeed (List.cons.inj hsplit).1.symm
    | return_cons =>
      obtain ⟨rfl, -⟩ := List.cons.inj hsplit
      exact absurd hbetween (by decide)

/-- At most one lexeme comes next. -/
theorem Munch.unique (h : Munch allowed cs l text rest) (h' : Munch allowed cs l' text' rest') :
    l = l' ∧ text = text' ∧ rest = rest' := by
  have hstarts : text <+: cs := ⟨rest, h.split⟩
  have hstarts' : text' <+: cs := ⟨rest', h'.split⟩
  have hle := h.longest l' text' h'.isAllowed h'.spells hstarts'
  have hle' := h'.longest l text h.isAllowed h.spells hstarts
  obtain rfl : text = text' :=
    (List.prefix_of_prefix_length_le hstarts hstarts' hle').eq_of_length_le hle
  refine ⟨?_, rfl, List.append_cancel_left (h.split.trans h'.split.symm)⟩
  obtain hl | ⟨t, u, rfl, rfl, ht, hu⟩ := Lexeme.eq_or_isWord_of_spells h.spells h'.spells
  · exact hl
  · -- Two words: no name where a keyword with its text is allowed.
    cases t with
    | keyword k =>
      cases u with
      | keyword k' =>
        have htext : text = k.text := h.spells
        have htext' : text = k'.text := h'.spells
        rw [Keyword.text_injective (htext.symm.trans htext')]
      | name => exact absurd h.spells (h'.keyword_first rfl k h.isAllowed)
      | _ => simp [Terminal.isWord] at hu
    | name =>
      cases u with
      | keyword k' => exact absurd h'.spells (h.keyword_first rfl k' h'.isAllowed)
      | name => rfl
      | _ => simp [Terminal.isWord] at hu
    | _ => simp [Terminal.isWord] at ht

/-- If any lexeme that is allowed fits, then one comes next. -/
theorem exists_munch (hallowed : l.Allowed allowed) (hspells : l.Spells text)
    (hstarts : text <+: cs) : ∃ l text rest, Munch allowed cs l text rest := by
  classical
  let Fits (n : Nat) : Prop :=
    ∃ l text, Lexeme.Allowed allowed l ∧ l.Spells text ∧ text <+: cs ∧ text.length = n
  have hfits : Fits (Nat.findGreatest Fits cs.length) :=
    Nat.findGreatest_spec hstarts.length_le ⟨l, text, hallowed, hspells, hstarts, rfl⟩
  obtain ⟨l, text, hallowed, hspells, ⟨rest, hsplit⟩, hlength⟩ := hfits
  have hlongest l' text' (ha : Lexeme.Allowed allowed l') (hs : l'.Spells text')
      (hp : text' <+: cs) : text'.length ≤ text.length :=
    hlength ▸ Nat.le_findGreatest hp.length_le ⟨l', text', ha, hs, hp, rfl⟩
  by_cases hkeyword : ∃ k, allowed (.keyword k) ∧ text = k.text
  · obtain ⟨k, hk, htext⟩ := hkeyword
    exact ⟨.token (.keyword k), text, rest, hsplit, htext, hk, hlongest, by simp⟩
  · exact ⟨l, text, rest, hsplit, hspells, hallowed, hlongest,
      fun _ k hk htext => hkeyword ⟨k, hk, htext⟩⟩

end Munch

section Scan

variable {allowed : Terminal → Bool} {cs text rest text' rest' : List Char} {t u : Terminal}

/-- Of the terminals that are allowed and fit, the scanner takes the one that is tried first. -/
theorem ranks_of_scan (h : scan allowed cs = .token t text rest) (hu : allowed u = true)
    (hmatch : u.match? cs = some (text', rest')) : t = u ∨ t.RanksBefore u := by
  unfold scan at h
  split at h
  next t' text'' rest'' hfirst =>
    obtain ⟨rfl, rfl, rfl⟩ := by simpa using h
    obtain ⟨before, v, after, hall, hv, hbefore⟩ := List.findSome?_eq_some_iff.1 hfirst
    obtain ⟨x, hx, heq⟩ := Option.map_eq_some_iff.1 hv
    obtain rfl : v = t' := congrArg Prod.fst heq
    have hranks := Terminal.pairwise_all.filter (fun t => allowed t)
    rw [hall] at hranks
    have humem : u ∈ before ++ v :: after :=
      hall ▸ List.mem_filter.2 ⟨u.mem_all, by simpa using hu⟩
    rcases List.mem_append.1 humem with humem | humem
    · exact absurd (hbefore u humem) (by simp [hmatch])
    · rcases List.mem_cons.1 humem with rfl | humem
      · exact .inl rfl
      · exact .inr ((List.pairwise_cons.1 (List.pairwise_append.1 hranks).2.1).1 u humem)
  next => split at h <;> simp at h

theorem exists_scan_eq_token (hu : allowed u = true) (hmatch : u.match? cs = some (text, rest)) :
    ∃ t text rest, scan allowed cs = .token t text rest := by
  have hmem : u ∈ Terminal.all.filter allowed := List.mem_filter.2 ⟨u.mem_all, hu⟩
  unfold scan
  cases hfirst : firstMatch (Terminal.all.filter allowed) cs with
  | some x => exact ⟨_, _, _, rfl⟩
  | none => simpa [hmatch] using List.findSome?_eq_none_iff.1 hfirst u hmem

/-- The scanner takes the next lexeme of a text that starts with no blank, no comment and no line
end. -/
theorem munch_of_scan (hname : ∀ k, allowed (.keyword k) = true → allowed .name = true)
    {c : Char} (hbetween : isBetweenTokens false c = false) (hfeed : c ≠ '\n')
    (h : scan allowed (c :: cs) = .token t text rest) :
    Munch (allowed · = true) (c :: cs) (.token t) text rest := by
  obtain ⟨hallowed, hsplit, -⟩ := scan_eq_token h
  have hmatch := scan_eq_token_match h
  refine ⟨hsplit, Terminal.spells_of_match? hmatch, hallowed, ?_, ?_⟩
  · intro l' text' hallowed' hspells' ⟨rest', hsplit'⟩
    obtain ⟨u, rfl, hu⟩ := Lexeme.exists_token_of_spells hspells' hsplit' hbetween hfeed
    obtain ⟨v, text'', rest'', hv, hmatch', hle⟩ := Terminal.exists_match? hu hspells' rest'
    rw [hsplit'] at hmatch'
    have hvallowed : allowed v = true := by
      obtain rfl | ⟨⟨k, rfl⟩, rfl⟩ := hv
      · exact hallowed'
      · exact hname k hallowed'
    refine Nat.le_trans hle ?_
    obtain rfl | hranks := ranks_of_scan h hvallowed hmatch'
    · rw [hmatch] at hmatch'
      obtain ⟨rfl, -⟩ := by simpa using hmatch'
      exact Nat.le_refl _
    · exact hranks.length_le hmatch hmatch'
  · rintro ⟨⟩ k hk htext
    have hkeyword : (Terminal.keyword k).match? (c :: cs) = some (text, rest) :=
      takeKeyword_eq_some.2 ⟨hmatch, htext⟩
    simpa [Terminal.RanksBefore, Terminal.kind, Terminal.fixed?] using ranks_of_scan h hk hkeyword

theorem Munch.scan_eq (hname : ∀ k, allowed (.keyword k) = true → allowed .name = true)
    (ht : t ≠ .lineEnd) (h : Munch (allowed · = true) cs (.token t) text rest) :
    scan allowed cs = .token t text rest := by
  have hspells : t.Spells text := h.spells
  obtain ⟨u, text', rest', hu, hmatch, -⟩ := Terminal.exists_match? ht hspells rest
  have huallowed : allowed u = true := by
    obtain rfl | ⟨⟨k, rfl⟩, rfl⟩ := hu
    · exact h.isAllowed
    · exact hname k h.isAllowed
  rw [h.split] at hmatch
  obtain ⟨t', text', rest', hscan⟩ := exists_scan_eq_token huallowed hmatch
  obtain ⟨c, ds, rfl, hc⟩ := hspells.head
  obtain rfl := h.split
  have hmunch := munch_of_scan hname
    (Bool.eq_false_iff.2 fun hbetween => Terminal.kind_ne ht (.inl hbetween) hc)
    (fun hfeed => Terminal.kind_ne ht (.inr hfeed) hc) hscan
  obtain ⟨heq, rfl, rfl⟩ := h.unique hmunch
  rw [hscan, ← Lexeme.token.inj heq]

end Scan

end ScriptRunner.Script
