import ScriptRunner.Proofs.Script.Boundaries
import ScriptRunner.Proofs.Script.Concatenation

/-!
# Where a text is no script

A text without the form of a script is read up to the first token with which no script goes on, and
there the fault is. What stands before it is cut into tokens, and some script starts with it. Only a
comment in front of a line end has to be left out for that: it takes whatever follows up to the line
end, which is what may not stand there.

## Main definitions

* `Phase.Finishes` - a text completes a script from a phase on.
* `SyntaxFault.Describes` - a fault says what stands at the start of a text.
* `Stop` - where the reading of a text stops.
* `Offence` - a fault stands at the first token with which no script goes on.

## Main statements

* `Phase.exists_finishes` - every phase can be completed.
* `exists_describes_of_refused` - what is reported where no lexeme comes next.
* `nonempty_stop` - every text is read up to a place where no lexeme comes next.
* `nonempty_offence_of_parse` - a fault stands at the first offending token.
-/

namespace ScriptRunner.Script

/-- A text completes a script from a phase on, wherever it stands. It starts with a boundary, so
that it may follow any token. -/
structure Phase.Finishes (phase : Phase) (cs : List Char) : Prop where
  boundary : IsBoundary cs
  getLast : cs.getLast? = some '\n'
  reads : ∀ position, ∃ items, readItems phase position cs = .ok items

namespace Phase

/-- A token with a blank before it. -/
theorem Finishes.token {phase : Phase} {t : Terminal} {text cs : List Char}
    (hspells : t.Spells text) (ht : t ≠ .lineEnd)
    (hname : t = .name → ∀ k, phase.allows (.keyword k) = true → text ≠ k.text)
    (next : Span → Phase) (hstep : ∀ span, phase.step ⟨t, text, span⟩ = some (next span, none))
    (h : ∀ span, (next span).Finishes cs) : phase.Finishes (' ' :: (text ++ cs)) where
  boundary := isBoundary_blank _
  getLast := by
    have hlast := (h default).getLast
    have hne : cs ≠ [] := by
      rintro rfl
      simp at hlast
    rw [← List.singleton_append, ← List.append_assoc, List.getLast?_append_of_ne_nil _ hne]
    exact hlast
  reads position := by
    let start := position.advance ' '
    have hread := readItems_spelled hspells ht hname (h default).boundary
      (hstep ⟨start, start.advanceAll text⟩)
    obtain ⟨items, hitems⟩ := (h ⟨start, start.advanceAll text⟩).reads (start.advanceAll text)
    rw [hitems] at hread
    exact ⟨items, (readItems_blank phase position _).trans hread⟩

theorem Finishes.mark {phase : Phase} {m : Mark} {cs : List Char} (next : Span → Phase)
    (hstep : ∀ span, phase.step ⟨.mark m, m.text, span⟩ = some (next span, none))
    (h : ∀ span, (next span).Finishes cs) : phase.Finishes (' ' :: (m.text ++ cs)) :=
  .token (t := .mark m) rfl (by simp) (by simp) next hstep h

/-- A name that is no keyword. -/
theorem Finishes.name {phase : Phase} {cs : List Char} (next : Span → Phase)
    (hstep : ∀ span, phase.step ⟨.name, ['a'], span⟩ = some (next span, none))
    (h : ∀ span, (next span).Finishes cs) : phase.Finishes (' ' :: (['a'] ++ cs)) := by
  have hspells : Terminal.name.Spells ['a'] := ⟨'a', [], rfl, by decide, by simp⟩
  have hkeyword : ∀ k : Keyword, ['a'] ≠ k.text := by
    rintro (_ | _ | _ | _) <;> decide
  exact .token hspells (by simp) (fun _ k _ => hkeyword k) next hstep h

theorem Finishes.feed {phase : Phase}
    (hstep : ∃ item, phase.step ⟨.lineEnd, ['\n'], ⟨.first, .first⟩⟩ = some (.lineStart, item)) :
    phase.Finishes ['\n'] where
  boundary := isBoundary_feed _
  getLast := rfl
  reads position := by
    obtain ⟨item, hstep⟩ := hstep
    rw [readItems_feed hstep, readItems_nil_eq_ok_iff.2 ⟨rfl, rfl⟩]
    exact ⟨_, rfl⟩

/-- Behind an operand the open brackets are closed, and then the statement ends. -/
theorem exists_finishes_afterOperand (brackets : List (Pending × Position)) :
    ∀ (opening : Opening) (pending : Pending), ∃ cs, ∀ (operand : Operand) (phase : Phase),
      (∀ t : Token, t.terminal ≠ .mark .dot →
        phase.step t = afterOperand ⟨opening, brackets, pending⟩ operand t) →
      phase.Finishes cs := by
  induction brackets with
  | nil =>
    intro opening pending
    cases opening with
    | print start =>
      refine ⟨' ' :: (Mark.closeParen.text ++ ['\n']), fun operand phase hphase => ?_⟩
      apply Finishes.mark (fun span => _)
      · intro span
        exact (hphase _ (by simp)).trans rfl
      · intro span
        exact .feed ⟨_, rfl⟩
    | _ =>
      refine ⟨['\n'], fun operand phase hphase => .feed ?_⟩
      rw [hphase _ (by simp)]
      exact ⟨_, rfl⟩
  | cons bracket brackets ih =>
    intro opening pending
    obtain ⟨cs, hcs⟩ := ih opening bracket.1
    refine ⟨' ' :: (Mark.closeParen.text ++ cs), fun operand phase hphase => ?_⟩
    apply Finishes.mark (fun span => _)
    · intro span
      exact (hphase _ (by simp)).trans rfl
    · intro span
      exact hcs _ _ fun t _ => rfl

theorem exists_finishes_operandEnd (ctx : Context) :
    ∃ cs, ∀ operand, (operandEnd ctx operand).Finishes cs := by
  obtain ⟨cs, hcs⟩ := exists_finishes_afterOperand ctx.brackets ctx.opening ctx.pending
  exact ⟨cs, fun operand => hcs operand _ fun t _ => rfl⟩

theorem exists_finishes_nameEnd (ctx : Context) :
    ∃ cs, ∀ name span, (nameEnd ctx name span).Finishes cs := by
  obtain ⟨cs, hcs⟩ := exists_finishes_afterOperand ctx.brackets ctx.opening ctx.pending
  exact ⟨cs, fun name span => hcs _ _ fun t ht => step_nameEnd ctx name span ht⟩

theorem exists_finishes_beforeOperand (ctx : Context) :
    ∃ cs, (beforeOperand ctx).Finishes cs := by
  obtain ⟨cs, hcs⟩ := exists_finishes_nameEnd ctx
  exact ⟨_, .name _ (fun span => rfl) fun span => hcs _ _⟩

/-- Every phase can be completed. -/
theorem exists_finishes (phase : Phase) : ∃ cs, phase.Finishes cs := by
  -- The stages of an annotation and of the start of a statement, each from the one after it.
  have hend : ∀ item, (annotationEnd item).Finishes ['\n'] := fun item => .feed ⟨_, rfl⟩
  have hargument : ∀ start target name argument, ∃ cs,
      (annotationArgument start target name argument).Finishes cs := by
    intro start target name argument
    exact ⟨_, .mark (m := .closeParen) _ (fun span => rfl) fun span => hend _⟩
  have hopen : ∀ start target name, ∃ cs, (annotationOpen start target name).Finishes cs := by
    intro start target name
    have hstring : Terminal.string.Spells ['"', '"'] := ⟨['"'], rfl, .close⟩
    obtain ⟨cs, hcs⟩ := hargument start target name ['"', '"']
    exact ⟨_, .token hstring (by simp) (by simp) _ (fun span => rfl) fun span => hcs⟩
  have hname : ∀ start target name, ∃ cs, (annotationName start target name).Finishes cs := by
    intro start target name
    obtain ⟨cs, hcs⟩ := hopen start target name
    exact ⟨_, .mark (m := .openParen) _ (fun span => rfl) fun span => hcs⟩
  have hcolon : ∀ start target, ∃ cs, (annotationColon start target).Finishes cs := by
    intro start target
    obtain ⟨cs, hcs⟩ := hname start target (.ofList ['a'])
    exact ⟨_, .name _ (fun span => rfl) fun span => hcs⟩
  have htarget : ∀ start target, ∃ cs, (annotationTarget start target).Finishes cs := by
    intro start target
    obtain ⟨cs, hcs⟩ := hcolon start target
    exact ⟨_, .mark (m := .colon) _ (fun span => rfl) fun span => hcs⟩
  have hval : ∀ start name, ∃ cs, (valName start name).Finishes cs := by
    intro start name
    obtain ⟨cs, hcs⟩ := exists_finishes_beforeOperand { opening := .val start name }
    exact ⟨_, .mark (m := .assign) _ (fun span => rfl) fun span => hcs⟩
  cases phase with
  | lineStart => exact ⟨_, .feed ⟨_, rfl⟩⟩
  | annotationSign start =>
    obtain ⟨cs, hcs⟩ := htarget start (.ofList ['a'])
    exact ⟨_, .name _ (fun span => rfl) fun span => hcs⟩
  | annotationTarget start target => exact htarget start target
  | annotationColon start target => exact hcolon start target
  | annotationName start target name => exact hname start target name
  | annotationOpen start target name => exact hopen start target name
  | annotationArgument start target name argument => exact hargument start target name argument
  | annotationEnd item => exact ⟨_, hend item⟩
  | valKeyword start =>
    obtain ⟨cs, hcs⟩ := hval start (.ofList ['a'])
    exact ⟨_, .name _ (fun span => rfl) fun span => hcs⟩
  | valName start name => exact hval start name
  | printKeyword start =>
    obtain ⟨cs, hcs⟩ := exists_finishes_beforeOperand { opening := .print start }
    exact ⟨_, .mark (m := .openParen) _ (fun span => rfl) fun span => hcs⟩
  | beforeOperand ctx => exact exists_finishes_beforeOperand ctx
  | nameEnd ctx name span =>
    obtain ⟨cs, hcs⟩ := exists_finishes_nameEnd ctx
    exact ⟨cs, hcs name span⟩
  | ownerDot ctx owner span =>
    obtain ⟨cs, hcs⟩ := exists_finishes_operandEnd ctx
    exact ⟨_, .name _ (fun span => rfl) fun span => hcs _⟩
  | operandEnd ctx operand =>
    obtain ⟨cs, hcs⟩ := exists_finishes_operandEnd ctx
    exact ⟨cs, hcs operand⟩
  | printEnd item => exact ⟨_, .feed ⟨_, rfl⟩⟩

end Phase

/-- A fault says what stands at the start of a text where some terminals are allowed: the token that
comes next if every terminal is allowed, or the end of the line, neither of which is allowed there,
or a character that no terminal starts with. -/
inductive SyntaxFault.Describes (allowed : Terminal → Prop) : SyntaxFault → List Char → Prop
  | token {t : Terminal} {cs text rest : List Char} (ht : t ≠ .lineEnd)
    (hmunch : Munch (fun _ => True) cs (.token t) text rest) (hrefused : ¬allowed t) :
    Describes allowed (.unexpectedToken text) cs
  | lineEnd {rest : List Char} (hrefused : ¬allowed .lineEnd) :
    Describes allowed .unexpectedLineEnd ('\n' :: rest)
  | character {c : Char} {rest : List Char}
    (hnone : ∀ (t : Terminal) text, t.Spells text → ¬text <+: c :: rest) :
    Describes allowed (.unexpectedCharacter c) (c :: rest)

/-- In front of a line feed only the line end is at fault. -/
theorem SyntaxFault.Describes.eq_unexpectedLineEnd {allowed : Terminal → Prop} {fault : SyntaxFault}
    {cs rest : List Char} (h : fault.Describes allowed cs) (hcs : cs = '\n' :: rest) :
    fault = .unexpectedLineEnd := by
  cases h with
  | lineEnd => rfl
  | @character c rest' hnone =>
    obtain ⟨rfl, rfl⟩ := List.cons.inj hcs
    exact absurd ⟨rest', rfl⟩ (hnone .lineEnd ['\n'] .feed)
  | @token t _ text rest' ht hmunch =>
    have hspells : t.Spells text := hmunch.spells
    obtain ⟨c, ds, rfl, hc⟩ := hspells.head
    obtain ⟨rfl, -⟩ := List.cons.inj (hmunch.split.trans hcs)
    exact absurd hc (Terminal.kind_ne ht (.inr rfl))

/-- A terminal that fits the start of a text that no blank starts is found there. -/
theorem Terminal.exists_match?_of_prefix {t : Terminal} {text cs : List Char} {c : Char}
    (hc : isBetweenTokens false c = false) (hspells : t.Spells text) (hstart : text <+: c :: cs) :
    ∃ u found, Terminal.match? u (c :: cs) = some found := by
  obtain ⟨rest, hrest⟩ := hstart
  by_cases ht : t = .lineEnd
  · subst ht
    have hfeed : c = '\n' := by
      cases hspells with
      | feed => exact (List.cons.inj hrest).1.symm
      | feed_cons => exact (List.cons.inj hrest).1.symm
      | return_cons =>
        obtain ⟨rfl, -⟩ := List.cons.inj hrest
        exact absurd hc (by decide)
    subst hfeed
    exact ⟨.lineEnd, _, Terminal.match?_feed cs⟩
  · obtain ⟨u, text', rest', -, hmatch, -⟩ := Terminal.exists_match? ht hspells rest
    exact ⟨u, _, hrest ▸ hmatch⟩

theorem SyntaxFault.ofToken_of_ne {t : Terminal} (ht : t ≠ .lineEnd) (text : List Char) :
    ofToken t text = .unexpectedToken text := by
  cases t with
  | lineEnd => exact absurd rfl ht
  | _ => rfl

/-- Only a token that is not allowed is unexpected, and it is found if every terminal is allowed. -/
theorem scan_eq_unexpected {allowed : Terminal → Bool} {cs text : List Char} {t : Terminal}
    (h : scan allowed cs = .unexpected t text) :
    allowed t = false ∧ ∃ rest, scan (fun _ => true) cs = .token t text rest := by
  unfold scan at h
  split at h
  · simp at h
  next hnone =>
    split at h
    next t' text' rest hfirst =>
      obtain ⟨rfl, rfl⟩ := by simpa using h
      obtain ⟨hmem, hmatch⟩ := firstMatch_eq_some hfirst
      refine ⟨Bool.eq_false_iff.2 fun hallowed => ?_, rest, by rw [scan, List.filter_true, hfirst]⟩
      -- If it were allowed, it would have been found among the allowed ones.
      have hfound := List.findSome?_eq_none_iff.1 hnone t'
        (List.mem_filter.2 ⟨hmem, hallowed⟩)
      simp [hmatch] at hfound
    · simp at h

theorem scan_eq_unknown {allowed : Terminal → Bool} {cs : List Char}
    (h : scan allowed cs = .unknown) (t : Terminal) : t.match? cs = none := by
  unfold scan at h
  split at h
  · simp at h
  · split at h
    · simp at h
    next hnone => simpa using List.findSome?_eq_none_iff.1 hnone t t.mem_all

/-- What is reported at a place where no lexeme comes next. -/
theorem exists_describes_of_refused {phase : Phase} {c : Char} {cs : List Char}
    (hrefused : ∀ l text rest, ¬Munch (phase.allows · = true) (c :: cs) l text rest)
    (position : Position) :
    ∃ fault, readItems phase position (c :: cs) = .error (fault, position) ∧
      fault.Describes (phase.allows · = true) (c :: cs) := by
  have hbetween : isBetweenTokens false c = false := by
    refine Bool.eq_false_iff.2 fun hc => ?_
    obtain ⟨l, text, rest, hmunch⟩ := exists_munch_of_isBetweenTokens hc
    exact hrefused l text rest hmunch
  have hblank : blankRun false (c :: cs) = ([], c :: cs) := by simp [blankRun, hbetween]
  have hread := readItems_eq_readScanned phase position (c :: cs)
  rw [hblank] at hread
  cases hscan : scan phase.allows (c :: cs) with
  | token t text rest =>
    obtain ⟨l, text', rest', hmunch⟩ := exists_munch_of_scan hbetween hscan
    exact absurd hmunch (hrefused l text' rest')
  | unknown =>
    rw [hscan] at hread
    refine ⟨_, hread, .character fun t text hspells hstart => ?_⟩
    obtain ⟨u, found, hmatch⟩ := Terminal.exists_match?_of_prefix hbetween hspells hstart
    simp [scan_eq_unknown hscan u] at hmatch
  | unexpected t text =>
    rw [hscan] at hread
    refine ⟨_, hread, ?_⟩
    obtain ⟨hallowed, rest, hall⟩ := scan_eq_unexpected hscan
    have hrefused : ¬phase.allows t = true := by simp [hallowed]
    by_cases hfeed : c = '\n'
    · subst hfeed
      obtain ⟨rfl, -, -⟩ := scan_feed hall
      exact .lineEnd hrefused
    · have hmunch : Munch (fun _ => True) (c :: cs) (.token t) text rest := by
        simpa using munch_of_scan (fun _ _ => rfl) hbetween hfeed hall
      obtain ⟨u, hu, ht⟩ := Lexeme.exists_token_of_spells hmunch.spells hmunch.split hbetween hfeed
      obtain rfl := Lexeme.token.inj hu
      rw [SyntaxFault.ofToken_of_ne ht]
      exact .token ht hmunch hrefused

/-- Where the reading of a text stops, behind tokens that lead to a script in the making: at a place
where no lexeme comes next. What has been read up to there may be followed by any boundary instead,
a comment at its end left out, and is cut into the same tokens without it. -/
structure Stop (before : List Token) (d : Draft) (position : Position) (cs : List Char) where
  kept : List Char
  comment : List Char
  rest : List Char
  split : kept ++ comment ++ rest = cs
  comment_or : comment = [] ∨ IsComment comment ∧ ∀ c ∈ rest.head?, c = '\n'
  tokens : List Token
  lexes : Lexes before position (kept ++ comment) tokens
  lexes_kept : Lexes before position kept tokens
  next : Draft
  run_eq : d.run tokens = some next
  read_eq : d.read position cs = next.read (position.advanceAll (kept ++ comment)) rest
  resume : ∀ ys, IsBoundary ys →
    d.read position (kept ++ ys) = next.read (position.advanceAll kept) ys
  refused : ∀ l text after, ¬Munch (next.line.phase.allows · = true) rest l text after

namespace Stop

variable {before : List Token} {d next : Draft} {position : Position} {cs text rest : List Char}

/-- At a place where no lexeme comes next. -/
def here (hrefused : ∀ l text after, ¬Munch (d.line.phase.allows · = true) cs l text after) :
    Stop before d position cs where
  kept := []
  comment := []
  rest := cs
  split := rfl
  comment_or := .inl rfl
  tokens := []
  lexes := .done
  lexes_kept := .done
  next := d
  run_eq := rfl
  read_eq := rfl
  resume _ _ := rfl
  refused := hrefused

/-- Behind blanks, or behind a comment that something else follows. -/
def skip {l : Lexeme} (s : Stop before d (position.advanceAll text) rest)
    (hbefore : Draft.start.run before = some d)
    (hmunch : Munch (d.line.phase.allows · = true) cs l text rest)
    (hl : l = .blanks ∨ l = .comment ∧ s.kept ≠ []) : Stop before d position cs where
  kept := text ++ s.kept
  comment := s.comment
  rest := s.rest
  split := by
    have hsplit := s.split
    rw [List.append_assoc] at hsplit
    rw [List.append_assoc, List.append_assoc, hsplit, hmunch.split]
  comment_or := s.comment_or
  tokens := s.tokens
  lexes := by
    have hlexeme : l = .blanks ∨ l = .comment := hl.imp_right And.left
    rw [← s.split, ← startsWith_eq hbefore] at hmunch
    rw [List.append_assoc]
    exact .skip hmunch.truncate hlexeme s.lexes
  lexes_kept := by
    rw [← s.split, List.append_assoc, ← startsWith_eq hbefore] at hmunch
    exact .skip hmunch.truncate (hl.imp_right And.left) s.lexes_kept
  next := s.next
  run_eq := s.run_eq
  read_eq := by
    rw [Draft.read_skip hmunch (hl.imp_right And.left), s.read_eq, List.append_assoc,
      Position.advanceAll_append position]
  resume ys hys := by
    have hbetween : IsBlanks text ∨ IsComment text ∧ ∀ c ∈ (s.kept ++ ys).head?, c = '\n' := by
      obtain rfl | ⟨rfl, hkept⟩ := hl
      · exact .inl hmunch.spells
      · -- A comment ends in front of a line feed, and that is kept.
        refine .inr ⟨hmunch.spells, fun c hc => hmunch.head_of_comment c ?_⟩
        obtain ⟨d, ds, hd⟩ := List.exists_cons_of_ne_nil hkept
        rw [← s.split, hd]
        simpa [hd] using hc
    rw [List.append_assoc, Draft.read_between hbetween, s.resume ys hys, Position.advanceAll_append]
  refused := s.refused

/-- Behind a comment that nothing may follow. -/
def behindComment (hbefore : Draft.start.run before = some d)
    (hmunch : Munch (d.line.phase.allows · = true) cs .comment text rest)
    (hrefused : ∀ l text after, ¬Munch (d.line.phase.allows · = true) rest l text after) :
    Stop before d position cs where
  kept := []
  comment := text
  rest := rest
  split := hmunch.split
  comment_or := .inr ⟨hmunch.spells, hmunch.head_of_comment⟩
  tokens := []
  lexes := by
    rw [← startsWith_eq hbefore] at hmunch
    have hall : Munch (StartsWith before) (text ++ []) .comment text [] := hmunch.truncate
    rw [List.append_nil] at hall
    exact .skip hall (.inr rfl) .done
  lexes_kept := .done
  next := d
  run_eq := rfl
  read_eq := Draft.read_skip hmunch (.inr rfl)
  resume _ _ := rfl
  refused := hrefused

/-- Behind a token. -/
def token {terminal : Terminal}
    (s : Stop (before ++ [⟨terminal, text, ⟨position, position.advanceAll text⟩⟩]) next
      (position.advanceAll text) rest)
    (hbefore : Draft.start.run before = some d)
    (hmunch : Munch (d.line.phase.allows · = true) cs (.token terminal) text rest)
    (hstep : d.step ⟨terminal, text, ⟨position, position.advanceAll text⟩⟩ = some next) :
    Stop before d position cs where
  kept := text ++ s.kept
  comment := s.comment
  rest := s.rest
  split := by
    have hsplit := s.split
    rw [List.append_assoc] at hsplit
    rw [List.append_assoc, List.append_assoc, hsplit, hmunch.split]
  comment_or := s.comment_or
  tokens := ⟨terminal, text, ⟨position, position.advanceAll text⟩⟩ :: s.tokens
  lexes := by
    rw [← s.split, ← startsWith_eq hbefore] at hmunch
    rw [List.append_assoc]
    exact .token hmunch.truncate s.lexes
  lexes_kept := by
    rw [← s.split, List.append_assoc, ← startsWith_eq hbefore] at hmunch
    exact .token hmunch.truncate s.lexes_kept
  next := s.next
  run_eq := by rw [Draft.run_cons, hstep, Option.bind_some, s.run_eq]
  read_eq := by
    have hnext := hmunch
    rw [← hmunch.split] at hnext
    rw [← hmunch.split, Draft.read_of_step hmunch.spells (.inr hnext) hstep, s.read_eq,
      List.append_assoc, Position.advanceAll_append position]
  resume ys hys := by
    have hnext : terminal = .lineEnd ∨ Munch (d.line.phase.allows · = true)
        (text ++ (s.kept ++ ys)) (.token terminal) text (s.kept ++ ys) := by
      refine or_iff_not_imp_left.2 fun ht => ?_
      rw [← s.split, List.append_assoc] at hmunch
      exact hmunch.transfer ht hmunch.isAllowed (fun u hu _ => hu) hys
    rw [List.append_assoc, Draft.read_of_step hmunch.spells hnext hstep, s.resume ys hys,
      Position.advanceAll_append]
  refused := s.refused

/-- Where a line may end, something is kept. -/
theorem kept_ne_nil (s : Stop before d position cs) (hfeed : ∀ c ∈ cs.head?, c = '\n') {l : Lexeme}
    (hmunch : Munch (d.line.phase.allows · = true) cs l text rest) : s.kept ≠ [] := by
  intro hkept
  have hsplit := s.split
  obtain hcomment | ⟨⟨ds, hcomment, -⟩, -⟩ := s.comment_or
  · -- Nothing has been read, but there is something to read.
    have hlexes := s.lexes
    rw [hkept, hcomment] at hlexes hsplit
    have htokens : s.tokens = [] := Lexes.unique hlexes .done
    have hrun := s.run_eq
    rw [htokens] at hrun
    have hnext : d = s.next := Option.some.inj hrun
    have hrest : s.rest = cs := hsplit
    have hrefused := s.refused l text rest
    rw [← hnext, hrest] at hrefused
    exact hrefused hmunch
  · rw [hkept, hcomment] at hsplit
    have hhash : '#' = '\n' := hfeed '#' (hsplit ▸ rfl)
    exact absurd hhash (by decide)

end Stop

/-- Every text is read up to a place where no lexeme comes next. -/
theorem nonempty_stop {before : List Token} {d : Draft} (hbefore : Draft.start.run before = some d)
    (position : Position) (cs : List Char) : Nonempty (Stop before d position cs) := by
  induction hn : cs.length using Nat.strong_induction_on generalizing before d position cs with
  | _ n ih =>
    by_cases hnext : ∃ l text rest, Munch (d.line.phase.allows · = true) cs l text rest
    · obtain ⟨l, text, rest, hmunch⟩ := hnext
      have hlt := hmunch.length_lt
      rw [hn] at hlt
      cases l with
      | blanks =>
        obtain ⟨s⟩ := ih _ hlt hbefore (position.advanceAll text) rest rfl
        exact ⟨s.skip hbefore hmunch (.inl rfl)⟩
      | comment =>
        by_cases hbehind : ∃ l text after, Munch (d.line.phase.allows · = true) rest l text after
        · obtain ⟨l, text', after, hbehind⟩ := hbehind
          obtain ⟨s⟩ := ih _ hlt hbefore (position.advanceAll text) rest rfl
          have hkept := s.kept_ne_nil hmunch.head_of_comment hbehind
          exact ⟨s.skip hbefore hmunch (.inr ⟨rfl, hkept⟩)⟩
        · exact ⟨.behindComment hbefore hmunch fun l text' after h => hbehind ⟨l, text', after, h⟩⟩
      | token terminal =>
        obtain ⟨next, hstep, -⟩ := Draft.exists_step_of_munch hmunch position
        have hrun := Draft.run_concat hbefore hstep
        obtain ⟨s⟩ := ih _ hlt hrun (position.advanceAll text) rest rfl
        exact ⟨s.token hbefore hmunch hstep⟩
    · exact ⟨.here fun l text after h => hnext ⟨l, text, after, h⟩⟩

/-- A fault stands at the first token with which no script goes on. The text in front of it is cut
into tokens and can be continued to a script, without a comment that it ends with where a line ends
that must not. Leaving out that comment leaves all tokens. What stands at the place is what the
fault says. -/
structure Offence (cs : List Char) (fault : SyntaxFault) (position : Position) where
  before : List Char
  rest : List Char
  split : before ++ rest = cs
  rest_ne : rest ≠ []
  position_eq : position = Position.first.advanceAll before
  tokens : List Token
  lexes : Lexes [] .first before tokens
  describes : fault.Describes (StartsWith tokens) rest
  kept : List Char
  comment : List Char
  before_eq : kept ++ comment = before
  lexes_kept : Lexes [] .first kept tokens
  comment_or : comment = [] ∨ IsComment comment ∧ fault = .unexpectedLineEnd
  exists_script : ∃ (suffix : List Char) (script : ScriptTree),
    script.IsOf (.ofList (kept ++ suffix))

/-- Behind a text that ends with a line a line starts. -/
theorem Lexes.phase_eq_lineStart {before tokens : List Token} {position : Position}
    {cs : List Char} {d next : Draft} (h : Lexes before position cs tokens)
    (hcs : cs.getLast? = some '\n') (hrun : d.run tokens = some next) :
    next.line.phase = .lineStart := by
  induction h generalizing d with
  | done => simp at hcs
  | @skip before tokens position cs text rest l hmunch hl hrest ih =>
    have hfeed := hmunch.not_mem_feed (by rintro rfl; simp at hl)
    obtain rfl := hmunch.split
    have hne : rest ≠ [] := by
      rintro rfl
      exact hfeed (List.mem_of_getLast? (by simpa using hcs))
    exact ih (getLast?_of_append hne hcs) hrun
  | @token before tokens position cs text rest terminal hmunch hrest ih =>
    obtain ⟨mid, hstep, hrun⟩ := Draft.exists_step_of_cons hrun
    obtain rfl := hmunch.split
    by_cases hne : rest = []
    · -- The last token holds the line feed.
      subst hne
      obtain rfl := hrest.unique .done
      obtain rfl := Option.some.inj hrun
      have hfeed : '\n' ∈ text := List.mem_of_getLast? (by simpa using hcs)
      obtain rfl : terminal = .lineEnd := by
        by_contra ht
        exact hmunch.not_mem_feed (by simpa using ht) hfeed
      obtain ⟨item, hphase⟩ := Draft.step_phase hstep
      exact (Phase.step_lineEnd hphase).1
    · exact ih (getLast?_of_append hne hcs) hrun

theorem withLineEnd_of_getLast? {cs : List Char} (h : cs.getLast? = some '\n') :
    withLineEnd cs = cs := if_pos h

theorem getLast?_withLineEnd (cs : List Char) : (withLineEnd cs).getLast? = some '\n' := by
  unfold withLineEnd
  split
  next h => exact h
  · simp

/-- What has been read can be continued to a script. -/
theorem Stop.exists_script {cs : List Char} (s : Stop [] .start .first cs) :
    ∃ (suffix : List Char) (script : ScriptTree), script.IsOf (.ofList (s.kept ++ suffix)) := by
  obtain ⟨ys, hys⟩ := s.next.line.phase.exists_finishes
  obtain ⟨items, hitems⟩ := hys.reads (Position.first.advanceAll s.kept)
  have hresume := s.resume ys hys.boundary
  have hlast : s.next.read (Position.first.advanceAll s.kept) ys =
      .ok (s.next.parts.items ++ items) := Draft.read_eq_ok_iff.2 ⟨items, hitems, rfl⟩
  obtain ⟨items', hread, -⟩ := Draft.read_eq_ok_iff.1 (hresume.trans hlast)
  obtain ⟨script, hlexes, -⟩ := readItems_eq_ok_iff.1 hread
  refine ⟨ys, script, ?_⟩
  have hend : (s.kept ++ ys).getLast? = some '\n' := by
    rw [List.getLast?_append, hys.getLast, Option.some_or]
  rw [ScriptTree.IsOf, String.toList_ofList, withLineEnd_of_getLast? hend]
  exact hlexes

/-- A text that is read with a fault has an offence at the position of the fault. -/
theorem nonempty_offence_of_readItems {cs : List Char} {fault : SyntaxFault} {position : Position}
    (hcs : cs.getLast? = some '\n')
    (h : readItems .lineStart .first cs = .error (fault, position)) :
    Nonempty (Offence cs fault position) := by
  have hstart : Draft.start.run [] = some Draft.start := rfl
  obtain ⟨s⟩ := nonempty_stop hstart .first cs
  let place := Position.first.advanceAll (s.kept ++ s.comment)
  have hread : Draft.start.read .first cs = .error (fault, position) := by
    simp [Draft.read, Draft.start, Line.phase, h, Except.map]
  have hnext : readItems s.next.line.phase place s.rest = .error (fault, position) := by
    rw [s.read_eq, Draft.read] at hread
    cases hitems : readItems s.next.line.phase place s.rest with
    | ok items => simp [place, hitems, Except.map] at hread
    | error e => simpa [place, hitems, Except.map] using hread
  have hne : s.rest ≠ [] := by
    intro hrest
    -- Where everything has been read, a line starts, and nothing is missing.
    have hsplit := s.split
    rw [hrest, List.append_nil] at hsplit
    have hlexes := s.lexes
    rw [hsplit] at hlexes
    have hphase := hlexes.phase_eq_lineStart hcs s.run_eq
    rw [hrest, readItems_nil_eq_ok_iff.2 ⟨hphase, rfl⟩] at hnext
    simp at hnext
  obtain ⟨c, ds, hrest⟩ := List.exists_cons_of_ne_nil hne
  have hrefused := s.refused
  rw [hrest] at hrefused hnext
  obtain ⟨fault', hfault, hdescribes⟩ := exists_describes_of_refused hrefused place
  obtain ⟨rfl, rfl⟩ : fault' = fault ∧ place = position := by
    simpa using hfault.symm.trans hnext
  refine ⟨⟨s.kept ++ s.comment, s.rest, s.split, hne, rfl, s.tokens, s.lexes, ?_, s.kept, s.comment,
    rfl, s.lexes_kept, ?_, s.exists_script⟩⟩
  · rw [startsWith_eq s.run_eq, hrest]
    exact hdescribes
  · obtain hcomment | ⟨hcomment, hfeed⟩ := s.comment_or
    · exact .inl hcomment
    · obtain rfl : c = '\n' := hfeed c (hrest ▸ rfl)
      exact .inr ⟨hcomment, hdescribes.eq_unexpectedLineEnd rfl⟩

/-- A comment takes what follows it, so it cannot be continued where no line may end. -/
theorem readItems_comment_ne_ok {phase : Phase} {position : Position} {text ys : List Char}
    (hphase : phase.allows .lineEnd = false) (htext : IsComment text) (hys : '\n' ∈ ys)
    (items : List WrittenItem) : readItems phase position (text ++ ys) ≠ .ok items := by
  intro hread
  obtain ⟨more, after, rfl, hmore⟩ := List.eq_append_cons_of_mem hys
  have hcomment : IsComment (text ++ more) := by
    obtain ⟨ds, rfl, hds⟩ := htext
    exact ⟨ds ++ more, rfl, by simp [hds, hmore]⟩
  rw [← List.append_assoc, readItems_skip (.inr ⟨hcomment, by simp⟩)] at hread
  obtain ⟨terminal, taken, rest, hscan⟩ := Draft.exists_scan_of_readItems rfl hread
  obtain ⟨rfl, -, -⟩ := scan_feed hscan
  exact Bool.false_ne_true (hphase.symm.trans (scan_eq_token hscan).1)

/-- A line end is added behind a text that holds none, if not before. -/
theorem exists_withLineEnd_append {cs : List Char} (hcs : '\n' ∉ cs) (suffix : List Char) :
    ∃ ys, withLineEnd (cs ++ suffix) = cs ++ ys ∧ '\n' ∈ ys := by
  have hmem := List.mem_of_getLast? (getLast?_withLineEnd (cs ++ suffix))
  unfold withLineEnd at hmem ⊢
  split
  next hlast =>
    rw [if_pos hlast] at hmem
    exact ⟨suffix, rfl, (List.mem_append.1 hmem).resolve_left hcs⟩
  next => exact ⟨suffix ++ ['\n'], List.append_assoc .., by simp⟩

section

variable [CharacterNames]

theorem readItems_of_malformed {file text : String} {e : ParseError} {fault : SyntaxFault}
    {position : Position} (h : parse file text = .error e)
    (hfault : e.fault = .malformed fault position) :
    readItems .lineStart .first (withLineEnd text.toList) = .error (fault, position) := by
  unfold parse at h
  split at h
  next fault' position' hread =>
    obtain rfl := Except.error.inj h
    obtain ⟨rfl, rfl⟩ := ParseFault.malformed.inj hfault
    exact hread
  · split at h
    · obtain rfl := Except.error.inj h
      simp at hfault
    · simp at h

/-- A text that is rejected for its form has an offence where the fault is reported, and the fault
is never the end of the text: what is offending is a token, the end of a line or a character. -/
theorem nonempty_offence_of_parse (file text : String) (e : ParseError) (fault : SyntaxFault)
    (position : Position) (h : parse file text = .error e)
    (hfault : e.fault = .malformed fault position) :
    fault ≠ .unexpectedEnd ∧ Nonempty (Offence (withLineEnd text.toList) fault position) := by
  obtain ⟨o⟩ := nonempty_offence_of_readItems (getLast?_withLineEnd _)
    (readItems_of_malformed h hfault)
  refine ⟨?_, ⟨o⟩⟩
  rintro rfl
  nomatch o.describes

end

attribute [local instance] CharacterNames.none

/-- Behind an open bracket no line may end. -/
theorem nonempty_offence_of_open_bracket :
    parse "/a" "val x = (1 # one" = .error ⟨"/a", .malformed .unexpectedLineEnd ⟨1, 17⟩⟩ ∧
      Nonempty (Offence (withLineEnd "val x = (1 # one".toList) .unexpectedLineEnd ⟨1, 17⟩) := by
  have hparse : parse "/a" "val x = (1 # one" =
      .error ⟨"/a", .malformed .unexpectedLineEnd ⟨1, 17⟩⟩ := eq_error_of_map (by decide +kernel)
  exact ⟨hparse, (nonempty_offence_of_parse _ _ _ _ _ hparse rfl).2⟩

/-- No script starts with a comment where no line may end, though the line end behind the comment is
what is at fault. -/
theorem not_isOf_comment :
    parse "/a" "val x = # one" = .error ⟨"/a", .malformed .unexpectedLineEnd ⟨1, 14⟩⟩ ∧
      Position.first.advanceAll "val x = # one".toList = ⟨1, 14⟩ ∧
      ∀ (suffix : List Char) (script : ScriptTree),
        ¬script.IsOf (.ofList ("val x = # one".toList ++ suffix)) := by
  refine ⟨eq_error_of_map (by decide +kernel), by decide, fun suffix script hscript => ?_⟩
  have hread := readItems_eq_ok_iff.2 ⟨script, hscript, rfl⟩
  obtain ⟨ys, hys, hmem⟩ := exists_withLineEnd_append
    (show '\n' ∉ "val x = # one".toList by decide) suffix
  have hstart : "val x = # one".toList ++ ys =
      "val ".toList ++ (['x'] ++ (" = ".toList ++ ("# one".toList ++ ys))) := rfl
  have hname : IsName ['x'] := ⟨'x', [], rfl, by decide, by simp⟩
  rw [String.toList_ofList, hys, hstart, readItems_val hname] at hread
  have hcomment : IsComment "# one".toList := ⟨" one".toList, rfl, by decide⟩
  exact readItems_comment_ne_ok rfl hcomment hmem _ hread

end ScriptRunner.Script
