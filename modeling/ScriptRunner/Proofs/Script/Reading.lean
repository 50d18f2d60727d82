import ScriptRunner.Proofs.Script.Derivations
import ScriptRunner.Proofs.Script.Lexemes

/-!
# From texts to derivations

A text is cut into tokens where what has been read so far decides which terminals are allowed: those
with which some script goes on. The machine that reads a script cuts it in this way and comes to the
items of the derivation.

## Main definitions

* `Lexes` - a text is cut into tokens.
* `Draft.read` - the items of a script in the making, with those of the text that follows.

## Main statements

* `Lexes.unique` - a text is cut into tokens in at most one way.
* `readItems_eq_ok_iff` - the machine accepts exactly the texts whose tokens have a derivation, and
  comes to the items of the derivation.
-/

namespace ScriptRunner.Script

/-- The tokens that a text is cut into from a position on, behind other tokens. At each place only
those terminals are allowed with which some script goes on; blanks and comments are dropped. -/
inductive Lexes : (before : List Token) → Position → List Char → List Token → Prop
  | done {before : List Token} {position : Position} : Lexes before position [] []
  | skip {before tokens : List Token} {position : Position} {cs text rest : List Char} {l : Lexeme}
    (hmunch : Munch (StartsWith before) cs l text rest) (hl : l = .blanks ∨ l = .comment)
    (hrest : Lexes before (position.advanceAll text) rest tokens) : Lexes before position cs tokens
  | token {before tokens : List Token} {position : Position} {cs text rest : List Char}
    {terminal : Terminal} (hmunch : Munch (StartsWith before) cs (.token terminal) text rest)
    (hrest : Lexes (before ++ [⟨terminal, text, ⟨position, position.advanceAll text⟩⟩])
      (position.advanceAll text) rest tokens) :
    Lexes before position cs (⟨terminal, text, ⟨position, position.advanceAll text⟩⟩ :: tokens)

theorem Munch.ne_nil {allowed : Terminal → Prop} {cs text rest : List Char} {l : Lexeme}
    (h : Munch allowed cs l text rest) : text ≠ [] := by
  have hspells := h.spells
  cases l with
  | blanks => exact hspells.1
  | comment =>
    obtain ⟨ds, rfl, -⟩ := hspells
    simp
  | token t =>
    obtain ⟨c, ds, rfl, -⟩ := Terminal.Spells.head hspells
    simp

theorem Munch.length_lt {allowed : Terminal → Prop} {cs text rest : List Char} {l : Lexeme}
    (h : Munch allowed cs l text rest) : rest.length < cs.length := by
  have hpos := List.length_pos_iff.2 h.ne_nil
  rw [← h.split, List.length_append]
  omega

/-- A comment reaches to a line feed or to the end. -/
theorem Munch.head_of_comment {allowed : Terminal → Prop} {cs text rest : List Char}
    (h : Munch allowed cs .comment text rest) : ∀ c ∈ rest.head?, c = '\n' := by
  intro c hc
  by_contra hfeed
  -- A character that ends no line would belong to the comment.
  obtain ⟨rest, rfl⟩ := List.head?_eq_some_iff.1 hc
  obtain ⟨ds, rfl, hds⟩ := h.spells
  have hlonger := h.longest .comment ('#' :: (ds ++ [c])) trivial
    ⟨ds ++ [c], rfl, by simpa [hds] using Ne.symm hfeed⟩ ⟨rest, by simp [← h.split]⟩
  simp only [List.length_cons, List.length_append, List.length_nil] at hlonger
  omega

/-- A text is cut into tokens in at most one way. -/
theorem Lexes.unique {before : List Token} {position : Position} {cs : List Char}
    {tokens tokens' : List Token} (h : Lexes before position cs tokens)
    (h' : Lexes before position cs tokens') : tokens = tokens' := by
  induction h generalizing tokens' with
  | done =>
    cases h' with
    | done => rfl
    | skip hmunch => exact absurd hmunch.length_lt (by simp)
    | token hmunch => exact absurd hmunch.length_lt (by simp)
  | skip hmunch hl hrest ih =>
    cases h' with
    | done => exact absurd hmunch.length_lt (by simp)
    | skip hmunch' _ hrest' =>
      obtain ⟨rfl, rfl, rfl⟩ := hmunch.unique hmunch'
      exact ih hrest'
    | token hmunch' _ =>
      obtain ⟨rfl, -, -⟩ := hmunch.unique hmunch'
      simp at hl
  | token hmunch hrest ih =>
    cases h' with
    | done => exact absurd hmunch.length_lt (by simp)
    | skip hmunch' hl _ =>
      obtain ⟨rfl, -, -⟩ := hmunch.unique hmunch'
      simp at hl
    | token hmunch' hrest' =>
      obtain ⟨heq, rfl, rfl⟩ := hmunch.unique hmunch'
      obtain rfl := Lexeme.token.inj heq
      rw [ih hrest']

variable {phase : Phase} {position position' : Position} {cs cs' text rest : List Char}

theorem blankRun_append_of_isBlanks (h : ∀ c ∈ text, isBlank c = true) (rest : List Char) :
    blankRun false (text ++ rest) = (text ++ (blankRun false rest).1, (blankRun false rest).2) := by
  induction text with
  | nil => rfl
  | cons c text ih =>
    have hc := h c List.mem_cons_self
    have hhash : (c == '#') = false := by
      rw [Bool.eq_false_iff]
      rintro heq
      obtain rfl := eq_of_beq heq
      exact absurd hc (by decide)
    have hih := ih fun d hd => h d (List.mem_cons_of_mem c hd)
    simp [blankRun, isBetweenTokens, hc, hhash, hih]

/-- A comment reaches to a line feed or to the end. -/
theorem blankRun_append_of_comment (h : '\n' ∉ text) (hrest : ∀ c ∈ rest.head?, c = '\n') :
    blankRun true (text ++ rest) = (text ++ (blankRun false rest).1, (blankRun false rest).2) := by
  induction text with
  | nil =>
    cases rest with
    | nil => rfl
    | cons c rest =>
      obtain rfl := hrest c rfl
      rfl
  | cons c text ih =>
    have hc : c ≠ '\n' := fun heq => h (heq ▸ List.mem_cons_self)
    have hih := ih fun hmem => h (List.mem_cons_of_mem c hmem)
    simp [blankRun, isBetweenTokens, hc, hih]

/-- What is read depends on what follows the blanks and on its position. -/
theorem readItems_congr (hrest : (blankRun false cs).2 = (blankRun false cs').2)
    (hposition : position.advanceAll (blankRun false cs).1 =
      position'.advanceAll (blankRun false cs').1) :
    readItems phase position cs = readItems phase position' cs' := by
  rw [readItems, readItems]
  generalize blankRun false cs = x at hrest hposition
  generalize blankRun false cs' = x' at hrest hposition
  obtain ⟨blanks, rest⟩ := x
  obtain ⟨blanks', rest'⟩ := x'
  obtain rfl : rest = rest' := hrest
  dsimp only at hposition ⊢
  rw [hposition]
  congr 1
  -- Where nothing fits, the outcome is a match that also takes the proof that nothing fits.
  funext _
  cases rest <;> cases phase <;> rfl

theorem blankRun_append_of_between
    (h : IsBlanks text ∨ IsComment text ∧ ∀ c ∈ rest.head?, c = '\n') :
    blankRun false (text ++ rest) =
      (text ++ (blankRun false rest).1, (blankRun false rest).2) := by
  obtain ⟨-, hblank⟩ | ⟨⟨ds, rfl, hds⟩, hrest⟩ := h
  · exact blankRun_append_of_isBlanks hblank rest
  · simp [blankRun, isBetweenTokens, blankRun_append_of_comment hds hrest]

/-- Blanks and comments are dropped. -/
theorem readItems_skip (h : IsBlanks text ∨ IsComment text ∧ ∀ c ∈ rest.head?, c = '\n') :
    readItems phase position (text ++ rest) = readItems phase (position.advanceAll text) rest := by
  have hblank := blankRun_append_of_between h
  apply readItems_congr
  · rw [hblank]
  · rw [hblank, Position.advanceAll_append]

/-- A token that the scanner finds is read. -/
theorem readItems_token {c : Char} (hc : isBetweenTokens false c = false) {terminal : Terminal}
    (hscan : scan phase.allows (c :: cs) = .token terminal text rest) {next : Phase}
    {item : Option WrittenItem} (hstep : phase.step
      ⟨terminal, text, ⟨position, position.advanceAll text⟩⟩ = some (next, item)) :
    readItems phase position (c :: cs) =
      (readItems next (position.advanceAll text) rest).map (item.toList ++ ·) := by
  have hblank : blankRun false (c :: cs) = ([], c :: cs) := by simp [blankRun, hc]
  rw [readItems, hblank]
  dsimp only [Position.advanceAll_nil]
  split
  next terminal' text' rest' hscan' =>
    obtain ⟨rfl, rfl, rfl⟩ := by simpa using hscan.symm.trans hscan'
    rw [hstep]
    dsimp only
    split
    next items hitems => rw [hitems]; rfl
    next fault hfault => rw [hfault]; rfl
  next hscan' => simp [hscan] at hscan'
  next hscan' => simp [hscan] at hscan'

/-- A line end leads to the start of a line, whatever its text and place are. -/
theorem Phase.step_lineEnd {span : Span} {next : Phase} {item : Option WrittenItem}
    (h : phase.step ⟨.lineEnd, text, span⟩ = some (next, item)) :
    next = .lineStart ∧ ∀ text' span', phase.step ⟨.lineEnd, text', span'⟩ = some (next, item) := by
  have hafter : ∀ {ctx operand},
      afterOperand ctx operand ⟨.lineEnd, text, span⟩ = some (next, item) → next = .lineStart ∧
        ∀ text' span', afterOperand ctx operand ⟨.lineEnd, text', span'⟩ = some (next, item) := by
    intro ctx operand h
    refine ⟨?_, fun _ _ => h⟩
    simp only [afterOperand] at h
    split at h
    · exact (Prod.mk.inj (Option.some.inj h)).1.symm
    · simp at h
  cases phase with
  | lineStart => exact ⟨(Prod.mk.inj (Option.some.inj h)).1.symm, fun _ _ => h⟩
  | annotationEnd item => exact ⟨(Prod.mk.inj (Option.some.inj h)).1.symm, fun _ _ => h⟩
  | printEnd item => exact ⟨(Prod.mk.inj (Option.some.inj h)).1.symm, fun _ _ => h⟩
  | nameEnd ctx name span => exact hafter h
  | operandEnd ctx operand => exact hafter h
  | _ => simp [step, startOperand] at h

theorem Terminal.match?_feed (cs : List Char) :
    Terminal.lineEnd.match? ('\n' :: cs) = some (['\n'], cs) := by
  simp [match?, takeText]

/-- Only a line end starts with a line feed. -/
theorem scan_feed {allowed : Terminal → Bool} {terminal : Terminal}
    (h : scan allowed ('\n' :: cs) = .token terminal text rest) :
    terminal = .lineEnd ∧ text = ['\n'] ∧ rest = cs := by
  have hmatch := scan_eq_token_match h
  obtain ⟨c, ds, rfl, hc⟩ := (Terminal.spells_of_match? hmatch).head
  obtain ⟨heq, -⟩ := List.cons.inj (scan_eq_token h).2.1
  by_cases ht : terminal = .lineEnd
  · subst ht
    exact ⟨rfl, by simpa using hmatch.symm.trans (Terminal.match?_feed cs)⟩
  · exact absurd hc (Terminal.kind_ne ht (.inr heq))

theorem scan_feed_of_allows (h : phase.allows .lineEnd = true) (cs : List Char) :
    scan phase.allows ('\n' :: cs) = .token .lineEnd ['\n'] cs := by
  obtain ⟨terminal, text, rest, hscan⟩ := exists_scan_eq_token h (Terminal.match?_feed cs)
  obtain ⟨rfl, rfl, rfl⟩ := scan_feed hscan
  exact hscan

theorem readItems_feed {span : Span} {next : Phase} {item : Option WrittenItem}
    (h : phase.step ⟨.lineEnd, text, span⟩ = some (next, item)) (cs : List Char) :
    readItems phase position ('\n' :: cs) =
      (readItems .lineStart (position.advance '\n') cs).map (item.toList ++ ·) := by
  have hallows : phase.allows .lineEnd = true := by
    rw [← Phase.isSome_step phase ⟨.lineEnd, text, span⟩, h, Option.isSome_some]
  obtain ⟨rfl, hstep⟩ := Phase.step_lineEnd h
  exact readItems_token rfl (scan_feed_of_allows hallows cs) (hstep _ _)

/-- Line ends in a row are read like one. -/
theorem readItems_lineEnds (htext : IsLineEnds text) {text' : List Char} {span : Span}
    {next : Phase} {item : Option WrittenItem}
    (h : phase.step ⟨.lineEnd, text', span⟩ = some (next, item)) :
    readItems phase position (text ++ rest) =
      (readItems next (position.advanceAll text) rest).map (item.toList ++ ·) := by
  obtain ⟨rfl, -⟩ := Phase.step_lineEnd h
  induction htext generalizing phase position text' span item with
  | feed => exact readItems_feed h rest
  | @feed_cons cs hrest ih =>
    -- The machine is at the start of a line now, where line ends complete nothing.
    have hstart : Phase.step .lineStart ⟨.lineEnd, text', span⟩ = some (.lineStart, none) := rfl
    rw [List.cons_append, readItems_feed h, ih hstart, Position.advanceAll_cons]
    cases readItems .lineStart ((position.advance '\n').advanceAll cs) rest <;> rfl
  | return_cons hrest ih =>
    rw [← List.singleton_append, List.append_assoc,
      readItems_skip (.inl (by simp [IsBlanks, isBlank])), ih h, Position.advanceAll_append]

/-- A name may stand wherever a keyword may. -/
theorem Phase.allows_name (phase : Phase) (k : Keyword)
    (h : phase.allows (.keyword k) = true) : phase.allows .name = true := by
  cases phase with
  | lineStart => rfl
  | beforeOperand ctx => rfl
  | _ => simp [allows, step, afterOperand] at h

theorem scan_nil (allowed : Terminal → Bool) : scan allowed [] = .unknown := by
  have hnone : ∀ terminals, firstMatch terminals [] = none := by
    intro terminals
    refine List.findSome?_eq_none_iff.2 fun t _ => Option.map_eq_none_iff.2 ?_
    rw [Option.eq_none_iff_forall_ne_some]
    rintro ⟨text, rest⟩ hmatch
    obtain ⟨happ, hne⟩ := t.takes_match? _ _ _ hmatch
    exact hne (List.append_eq_nil_iff.1 happ).1
  simp [scan, hnone]

theorem readItems_nil_eq_ok_iff {items : List WrittenItem} :
    readItems phase position [] = .ok items ↔ phase = .lineStart ∧ items = [] := by
  rw [readItems]
  have hscan := scan_nil phase.allows
  split
  next h => simp [blankRun, hscan] at h
  next h => simp [blankRun, hscan] at h
  next h => cases phase <;> simp [blankRun, eq_comm]

/-- What stands between tokens comes next. -/
theorem exists_munch_of_isBetweenTokens {allowed : Terminal → Prop} {c : Char}
    (hc : isBetweenTokens false c = true) : ∃ l text rest, Munch allowed (c :: cs) l text rest := by
  have hstarts : [c] <+: c :: cs := ⟨cs, rfl⟩
  rcases Bool.or_eq_true _ _ ▸ hc with hblank | hhash
  · exact exists_munch (l := .blanks) trivial ⟨by simp, by simpa using hblank⟩ hstarts
  · obtain rfl := eq_of_beq hhash
    exact exists_munch (l := .comment) trivial ⟨[], rfl, by simp⟩ hstarts

/-- Some lexeme comes next where the scanner finds a token. -/
theorem exists_munch_of_scan {c : Char} {terminal : Terminal}
    (hc : isBetweenTokens false c = false)
    (hscan : scan phase.allows (c :: cs) = .token terminal text rest) :
    ∃ l text rest, Munch (phase.allows · = true) (c :: cs) l text rest := by
  by_cases hfeed : c = '\n'
  · subst hfeed
    obtain ⟨rfl, -, -⟩ := scan_feed hscan
    exact exists_munch (l := .token .lineEnd) (scan_eq_token hscan).1 .feed ⟨cs, rfl⟩
  · exact ⟨_, _, _, munch_of_scan phase.allows_name hc hfeed hscan⟩

namespace Draft

variable {d next : Draft} {l : Lexeme} {terminal : Terminal} {items : List WrittenItem}

/-- The items of a script in the making, with those of the text that follows. -/
def read (d : Draft) (position : Position) (cs : List Char) :
    Except (SyntaxFault × Position) (List WrittenItem) :=
  (readItems d.line.phase position cs).map (d.parts.items ++ ·)

theorem read_eq_ok_iff : d.read position cs = .ok items ↔ ∃ items',
    readItems d.line.phase position cs = .ok items' ∧ d.parts.items ++ items' = items := by
  unfold read
  cases readItems d.line.phase position cs <;> simp [Except.map]

theorem items_append_toList (parts : ScriptTree) (part : Option Part) :
    ScriptTree.items (parts ++ part.toList) = parts.items ++ (part.bind Part.item?).toList := by
  cases part with
  | none => simp [ScriptTree.items]
  | some part => cases h : part.item? <;> simp [ScriptTree.items, h]

/-- Blanks and comments are dropped. -/
theorem read_between (h : IsBlanks text ∨ IsComment text ∧ ∀ c ∈ rest.head?, c = '\n') :
    d.read position (text ++ rest) = d.read (position.advanceAll text) rest := by
  rw [read, readItems_skip h, read]

theorem read_skip (h : Munch (d.line.phase.allows · = true) cs l text rest)
    (hl : l = .blanks ∨ l = .comment) :
    d.read position cs = d.read (position.advanceAll text) rest := by
  obtain rfl := h.split
  obtain rfl | rfl := hl
  · exact read_between (.inl h.spells)
  · exact read_between (.inr ⟨h.spells, h.head_of_comment⟩)

/-- A token that may stand where it does is read, if it comes next or is a line end. -/
theorem read_of_step (hspells : terminal.Spells text)
    (hnext : terminal = .lineEnd ∨
      Munch (d.line.phase.allows · = true) (text ++ rest) (.token terminal) text rest)
    (hstep : d.step ⟨terminal, text, ⟨position, position.advanceAll text⟩⟩ = some next) :
    d.read position (text ++ rest) = next.read (position.advanceAll text) rest := by
  obtain ⟨⟨line, part⟩, hline, rfl⟩ := Option.map_eq_some_iff.1 hstep
  have hphase := Line.step_phase d.line ⟨terminal, text, ⟨position, position.advanceAll text⟩⟩
  rw [hline, Option.map_some] at hphase
  have hread : readItems d.line.phase position (text ++ rest) = (readItems line.phase
      (position.advanceAll text) rest).map ((part.bind Part.item?).toList ++ ·) := by
    by_cases ht : terminal = .lineEnd
    · subst ht
      exact readItems_lineEnds hspells hphase
    · have hscan := (hnext.resolve_left ht).scan_eq d.line.phase.allows_name ht
      obtain ⟨c, ds, rfl, hc⟩ := hspells.head
      exact readItems_token
        (Bool.eq_false_iff.2 fun hbetween => Terminal.kind_ne ht (.inl hbetween) hc) hscan hphase
  rw [read, hread, read]
  cases readItems line.phase (position.advanceAll text) rest with
  | error fault => rfl
  | ok items => simp [Except.map, items_append_toList]

/-- A token that comes next is read. -/
theorem exists_step_of_munch
    (h : Munch (d.line.phase.allows · = true) cs (.token terminal) text rest)
    (position : Position) :
    ∃ next, d.step ⟨terminal, text, ⟨position, position.advanceAll text⟩⟩ = some next ∧
      d.read position cs = next.read (position.advanceAll text) rest := by
  have hsome : (d.step ⟨terminal, text, ⟨position, position.advanceAll text⟩⟩).isSome = true :=
    (d.isSome_step _).trans h.isAllowed
  obtain ⟨next, hstep⟩ := Option.isSome_iff_exists.1 hsome
  obtain rfl := h.split
  exact ⟨next, hstep, read_of_step h.spells (.inr h) hstep⟩

theorem read_nil_eq_ok_iff : d.read position [] = .ok items ↔
    d.line = .start ∧ items = d.parts.items := by
  have hphase : d.line.phase = .lineStart ↔ d.line = .start := by
    cases d.line with
    | operandEnd ctx a => cases a <;> simp [Line.phase]
    | _ => simp [Line.phase]
  simp only [read_eq_ok_iff, readItems_nil_eq_ok_iff, hphase]
  constructor
  · rintro ⟨_, ⟨hline, rfl⟩, rfl⟩
    exact ⟨hline, by simp⟩
  · rintro ⟨hline, rfl⟩
    exact ⟨[], ⟨hline, rfl⟩, by simp⟩

theorem exists_scan_of_readItems {c : Char} (hc : isBetweenTokens false c = false)
    (h : readItems phase position (c :: cs) = .ok items) :
    ∃ terminal text rest, scan phase.allows (c :: cs) = .token terminal text rest := by
  have hblank : blankRun false (c :: cs) = ([], c :: cs) := by simp [blankRun, hc]
  rw [readItems, hblank] at h
  dsimp only at h
  split at h
  next hscan => exact ⟨_, _, _, hscan⟩
  · simp at h
  · simp at h

/-- A text that is read goes on with some lexeme. -/
theorem exists_munch_of_read (h : d.read position cs = .ok items) (hne : cs ≠ []) :
    ∃ l text rest, Munch (d.line.phase.allows · = true) cs l text rest := by
  obtain ⟨c, ds, rfl⟩ := List.exists_cons_of_ne_nil hne
  by_cases hbetween : isBetweenTokens false c = true
  · exact exists_munch_of_isBetweenTokens hbetween
  · obtain ⟨items', hread, -⟩ := read_eq_ok_iff.1 h
    have hbetween := Bool.eq_false_iff.2 hbetween
    obtain ⟨terminal, text, rest, hscan⟩ := exists_scan_of_readItems hbetween hread
    exact exists_munch_of_scan hbetween hscan

end Draft

theorem Draft.run_concat {before : List Token} {d next : Draft} {t : Token}
    (h : Draft.start.run before = some d) (hstep : d.step t = some next) :
    Draft.start.run (before ++ [t]) = some next := by
  rw [run_append, h, Option.bind_some, run_cons, hstep, Option.bind_some, run_nil]

theorem startsWith_eq {before : List Token} {d : Draft} (h : Draft.start.run before = some d) :
    StartsWith before = fun terminal => d.line.phase.allows terminal = true :=
  funext fun terminal => propext (startsWith_iff_allows h terminal)

/-- The machine can read the tokens of a text, and comes to the same items from them. -/
theorem Lexes.exists_run {before tokens : List Token} {d : Draft}
    (h : Lexes before position cs tokens) (hbefore : Draft.start.run before = some d) :
    ∃ next position', d.run tokens = some next ∧
      d.read position cs = next.read position' [] := by
  induction h generalizing d with
  | done => exact ⟨d, _, rfl, rfl⟩
  | skip hmunch hl hrest ih =>
    rw [startsWith_eq hbefore] at hmunch
    rw [Draft.read_skip hmunch hl]
    exact ih hbefore
  | token hmunch hrest ih =>
    rw [startsWith_eq hbefore] at hmunch
    obtain ⟨next, hstep, hread⟩ := Draft.exists_step_of_munch hmunch _
    obtain ⟨last, position', hrun, hlast⟩ := ih (Draft.run_concat hbefore hstep)
    exact ⟨last, position', by rw [Draft.run_cons, hstep, Option.bind_some, hrun],
      hread.trans hlast⟩

/-- A text that the machine reads is cut into tokens. -/
theorem exists_lexes {before : List Token} {d : Draft} {items : List WrittenItem}
    (hbefore : Draft.start.run before = some d) (hread : d.read position cs = .ok items) :
    ∃ tokens, Lexes before position cs tokens := by
  induction hn : cs.length using Nat.strong_induction_on generalizing before position cs d with
  | _ n ih =>
    by_cases hne : cs = []
    · subst hne
      exact ⟨[], .done⟩
    · obtain ⟨l, text, rest, hmunch⟩ := Draft.exists_munch_of_read hread hne
      have hlt := hmunch.length_lt
      rw [hn] at hlt
      obtain hl | ⟨terminal, rfl⟩ : (l = .blanks ∨ l = .comment) ∨ ∃ t, l = .token t := by
        cases l <;> simp
      · rw [Draft.read_skip hmunch hl] at hread
        rw [← startsWith_eq hbefore] at hmunch
        obtain ⟨tokens, htokens⟩ := ih _ hlt hbefore hread rfl
        exact ⟨tokens, .skip hmunch hl htokens⟩
      · obtain ⟨next, hstep, hnext⟩ := Draft.exists_step_of_munch hmunch position
        rw [hnext] at hread
        rw [← startsWith_eq hbefore] at hmunch
        obtain ⟨tokens, htokens⟩ := ih _ hlt (Draft.run_concat hbefore hstep) hread rfl
        exact ⟨_, .token hmunch htokens⟩

/-- The machine accepts exactly the texts whose tokens have a derivation, and it comes to the items
of the derivation. -/
theorem readItems_eq_ok_iff {items : List WrittenItem} :
    readItems .lineStart position cs = .ok items ↔
      ∃ script : ScriptTree, Lexes [] position cs script.tokens ∧ items = script.items := by
  have hstart : Draft.start.run [] = some Draft.start := rfl
  have hread : readItems .lineStart position cs = .ok items ↔
      Draft.start.read position cs = .ok items := by
    simp [Draft.read_eq_ok_iff, Draft.start, Line.phase, ScriptTree.items]
  rw [hread]
  constructor
  · intro h
    obtain ⟨tokens, htokens⟩ := exists_lexes hstart h
    obtain ⟨next, position', hrun, hlast⟩ := htokens.exists_run hstart
    obtain ⟨hline, rfl⟩ := Draft.read_nil_eq_ok_iff.1 (hlast.symm.trans h)
    -- The run has lost no token, and the last line is empty.
    have hparts : next.parts.tokens = tokens := by
      simpa [Draft.tokens, Draft.start, hline, Line.tokens, ScriptTree.tokens] using
        Draft.tokens_of_run hrun
    exact ⟨next.parts, hparts ▸ htokens, rfl⟩
  · rintro ⟨script, hlexes, rfl⟩
    obtain ⟨next, position', hrun, hlast⟩ := hlexes.exists_run hstart
    obtain rfl := Option.some.inj (hrun.symm.trans (Draft.run_tokens script []))
    exact hlast.trans (Draft.read_nil_eq_ok_iff.2 ⟨rfl, by simp⟩)

end ScriptRunner.Script
