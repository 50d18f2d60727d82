import ScriptRunner.Proofs.Script.ReadingBack

/-!
# Layout does not change meaning

Blanks between tokens, comments in front of line feeds, idle lines between lines, and carriage
returns in front of line feeds may be added to a script: it denotes the same script with other
places. What the machine does depends on places nowhere, so it is enough that it comes to the same
tokens. A token keeps its text in front of a boundary, and what is added starts with one.

## Main definitions

* `Program.unplaced` - a script without its places.
* `BetweenTokens` - a text is cut between two adjacent tokens.
* `IsIdleLine`, `withReturns` - a line without tokens, and a text with other line ends.
* `LayoutEdit` - the changes of a text.

## Main statements

* `readItems_unplaced` - what is read from a place on, wherever that is.
* `Lexes.read_boundary` - tokens are read in front of any boundary.
* `readItems_beforeFeed` - blanks and comments in front of a line feed.
* `parse_layoutEdit` - an edited script is the same script but for its places.
-/

namespace ScriptRunner.Script

/-- A script without its places. -/
def Program.unplaced (p : Program) : Program where
  file := p.file
  annotations := p.annotations.map fun a => a.relocate fun _ => .first
  statements := p.statements.map fun s => s.relocate fun _ => .first

theorem Program.unplaced_ofItems (file : String) (items : List (Item Value ScriptText)) :
    (ofItems file items).unplaced = ofItems file (items.map Item.unplaced) := by
  unfold unplaced ofItems
  congr 1
  · exact (annotationsOf_relocate (fun _ => .first) true items).symm
  · exact (statementsOf_relocate (fun _ => .first) items).symm

section

variable {phase phase' : Phase}

theorem Phase.allows_of_unplaced (h : phase.unplaced = phase'.unplaced) :
    phase.allows = phase'.allows := by
  rw [← allows_relocate (fun _ => .first) phase, ← allows_relocate (fun _ => .first) phase']
  exact congrArg allows h

theorem Phase.eq_lineStart_of_unplaced (h : Phase.lineStart.unplaced = phase.unplaced) :
    phase = .lineStart := by
  cases phase <;> first | rfl | simp [unplaced, relocate] at h

/-- What is read depends on the tokens that follow and not on where they stand. -/
theorem readItems_unplaced {position : Position} {cs cs' : List Char} {items : List WrittenItem}
    (hphase : phase.unplaced = phase'.unplaced)
    (hcs : (blankRun false cs).2 = (blankRun false cs').2)
    (h : readItems phase position cs = .ok items) (position' : Position) :
    ∃ items', readItems phase' position' cs' = .ok items' ∧
      items'.map Item.unplaced = items.map Item.unplaced := by
  induction hn : cs.length using Nat.strong_induction_on
    generalizing phase phase' position position' cs cs' items with
  | _ n ih =>
    have hle := blankRun_length_le false cs
    rw [readItems_eq_readScanned] at h ⊢
    rw [← hcs, ← Phase.allows_of_unplaced hphase]
    generalize position.advanceAll (blankRun false cs).1 = here at h
    generalize position'.advanceAll (blankRun false cs').1 = here'
    generalize (blankRun false cs).2 = behind at h hle ⊢
    cases hscan : scan phase.allows behind with
    | token terminal text rest =>
      rw [hscan, readScanned] at h
      cases hstep : phase.step ⟨terminal, text, ⟨here, here.advanceAll text⟩⟩ with
      | none => simp [hstep] at h
      | some result =>
        obtain ⟨next, item⟩ := result
        rw [hstep] at h
        obtain ⟨items₁, hrest, rfl⟩ := map_eq_ok.1 h
        let t : Token := ⟨terminal, text, ⟨here, here.advanceAll text⟩⟩
        let t' : Token := ⟨terminal, text, ⟨here', here'.advanceAll text⟩⟩
        have hterminal : t.terminal = t'.terminal := rfl
        obtain ⟨next', item', hstep', hnext, hitem⟩ :=
          Phase.step_of_unplaced hphase hterminal rfl hstep
        dsimp only [t'] at hstep'
        have hlt := scan_shortens hscan
        obtain ⟨items₂, hrest', hitems⟩ :=
          ih rest.length (by omega) hnext rfl hrest (here'.advanceAll text) rfl
        refine ⟨item'.toList ++ items₂, ?_, ?_⟩
        · rw [readScanned, hstep']
          exact map_eq_ok.2 ⟨items₂, hrest', rfl⟩
        · rw [List.map_append, List.map_append, hitems, ← Option.toList_map, ← Option.toList_map,
            hitem]
    | unexpected terminal text => simp [hscan, readScanned] at h
    | unknown =>
      rw [hscan] at h
      cases behind with
      | cons c behind => simp [readScanned] at h
      | nil =>
        cases phase with
        | lineStart =>
          obtain rfl := Phase.eq_lineStart_of_unplaced hphase
          obtain rfl := Except.ok.inj h
          exact ⟨[], rfl, rfl⟩
        | _ => simp [readScanned] at h

end

section

variable {inComment : Bool} {gap rest blanks text : List Char}

/-- What ends blanks and comments does so with more text behind it. -/
theorem blankRun_append_of_ne_nil (h : (blankRun inComment gap).2 ≠ []) (ys : List Char) :
    blankRun inComment (gap ++ ys) =
      ((blankRun inComment gap).1, (blankRun inComment gap).2 ++ ys) := by
  induction gap generalizing inComment with
  | nil => exact absurd rfl h
  | cons c gap ih =>
    rw [blankRun] at h
    rw [List.cons_append, blankRun, blankRun]
    by_cases hc : isBetweenTokens inComment c = true
    · rw [if_pos hc] at h
      rw [if_pos hc, if_pos hc, ih h]
    · rw [if_neg hc, if_neg hc, List.cons_append]

/-- Behind blanks and comments a comment is open or not. -/
theorem blankRun_append_of_nil (h : (blankRun inComment gap).2 = []) :
    ∃ open', ∀ ys, blankRun inComment (gap ++ ys) =
      (gap ++ (blankRun open' ys).1, (blankRun open' ys).2) := by
  induction gap generalizing inComment with
  | nil => exact ⟨inComment, fun _ => rfl⟩
  | cons c gap ih =>
    rw [blankRun] at h
    by_cases hc : isBetweenTokens inComment c = true
    · rw [if_pos hc] at h
      obtain ⟨open', hopen⟩ := ih h
      refine ⟨open', fun ys => ?_⟩
      rw [List.cons_append, blankRun, if_pos hc, hopen]
      rfl
    · rw [if_neg hc] at h
      simp at h

/-- The start of blanks and comments is made of blanks and comments. -/
theorem blankRun_nil_of_append {xs ys : List Char} (h : (blankRun inComment (xs ++ ys)).2 = []) :
    (blankRun inComment xs).2 = [] := by
  by_contra hxs
  rw [blankRun_append_of_ne_nil hxs] at h
  exact hxs (List.append_eq_nil_iff.1 h).1

/-- Blanks are dropped in comments and outside. -/
theorem blankRun_blanks (hblanks : ∀ c ∈ blanks, isBlank c = true) (inComment : Bool)
    (ys : List Char) : (blankRun inComment (blanks ++ ys)).2 = (blankRun inComment ys).2 := by
  induction blanks with
  | nil => rfl
  | cons c blanks ih =>
    have hc := hblanks c List.mem_cons_self
    have hcases : c = ' ' ∨ c = '\t' ∨ c = '\x0c' ∨ c = '\r' := by
      simpa [isBlank, or_assoc] using hc
    have hbetween : isBetweenTokens inComment c = true := by
      cases inComment <;> rcases hcases with rfl | rfl | rfl | rfl <;> rfl
    have hopen : (inComment || c == '#') = inComment := by
      rcases hcases with rfl | rfl | rfl | rfl <;> exact Bool.or_false inComment
    rw [List.cons_append, blankRun, if_pos hbetween, hopen]
    exact ih fun d hd => hblanks d (List.mem_cons_of_mem c hd)

/-- Blanks among blanks and comments make no difference to what follows. -/
theorem blankRun_insert (hgap : (blankRun false gap).2 = [])
    (hblanks : ∀ c ∈ blanks, isBlank c = true) (ys : List Char) :
    (blankRun false (gap ++ (blanks ++ ys))).2 = (blankRun false (gap ++ ys)).2 := by
  obtain ⟨open', hopen⟩ := blankRun_append_of_nil hgap
  rw [hopen, hopen]
  exact blankRun_blanks hblanks open' ys

theorem isBoundary_of_between (htext : IsBlanks text ∨ IsComment text) (ys : List Char) :
    IsBoundary (text ++ ys) := by
  obtain ⟨hne, hblanks⟩ | ⟨cs, rfl, -⟩ := htext
  · obtain ⟨c, blanks, rfl⟩ := List.exists_cons_of_ne_nil hne
    intro d hd
    obtain rfl : c = d := Option.some.inj hd
    exact .inl (Bool.or_eq_true_iff.2 (.inl (hblanks c List.mem_cons_self)))
  · intro d hd
    obtain rfl : '#' = d := Option.some.inj hd
    exact .inl rfl

/-- Blanks and comments start with what stands between tokens. -/
theorem isBoundary_gap (hgap : (blankRun false gap).2 = []) {ys : List Char} (hys : IsBoundary ys) :
    IsBoundary (gap ++ ys) := by
  cases gap with
  | nil => exact hys
  | cons c gap =>
    intro d hd
    obtain rfl : c = d := Option.some.inj hd
    rw [blankRun] at hgap
    by_cases hc : isBetweenTokens false c = true
    · exact .inl hc
    · rw [if_neg hc] at hgap
      simp at hgap

end

section

variable {before tokens : List Token} {position : Position} {cs : List Char}

theorem Lexes.ne_nil (h : Lexes before position cs tokens) (htokens : tokens ≠ []) : cs ≠ [] := by
  rintro rfl
  exact htokens (h.unique .done)

/-- Tokens that end their text are read in front of any boundary. -/
theorem Lexes.read_boundary (h : Lexes before position cs tokens) {d : Draft}
    (hbefore : Draft.start.run before = some d)
    (hends : (tokens.getLast?.map (·.span.stop)).getD position = position.advanceAll cs) :
    ∃ next, d.run tokens = some next ∧ ∀ ys, IsBoundary ys →
      d.read position (cs ++ ys) = next.read (position.advanceAll cs) ys := by
  induction h generalizing d with
  | done => exact ⟨d, rfl, fun _ _ => rfl⟩
  | @skip before tokens position cs text rest l hmunch hl hrest ih =>
    -- Something follows what is dropped, for a token ends the text.
    have htokens : tokens ≠ [] := by
      rintro rfl
      have hlt := position.lt_advanceAll (hmunch.split ▸ List.append_ne_nil_of_left_ne_nil
        hmunch.ne_nil rest : cs ≠ [])
      exact absurd hends hlt.ne
    obtain ⟨t, ts, rfl⟩ := List.exists_cons_of_ne_nil htokens
    obtain ⟨c, rest, rfl⟩ := List.exists_cons_of_ne_nil (hrest.ne_nil htokens)
    rw [getD_getLast?_cons, ← hmunch.split, Position.advanceAll_append] at hends
    obtain ⟨next, hrun, hread⟩ := ih hbefore (by rw [getD_getLast?_cons, hends])
    refine ⟨next, hrun, fun ys hys => ?_⟩
    have hbetween : IsBlanks text ∨ IsComment text ∧ ∀ c' ∈ (c :: rest ++ ys).head?, c' = '\n' := by
      obtain rfl | rfl := hl
      · exact .inl hmunch.spells
      · exact .inr ⟨hmunch.spells, hmunch.head_of_comment⟩
    rw [← hmunch.split, List.append_assoc, Draft.read_between hbetween, hread ys hys,
      Position.advanceAll_append]
  | @token before tokens position cs text rest terminal hmunch hrest ih =>
    rw [startsWith_eq hbefore] at hmunch
    obtain ⟨mid, hstep, -⟩ := Draft.exists_step_of_munch hmunch position
    rw [getD_getLast?_cons, ← hmunch.split, Position.advanceAll_append] at hends
    obtain ⟨next, hrun, hread⟩ := ih (Draft.run_concat hbefore hstep) hends
    refine ⟨next, by rw [Draft.run_cons, hstep, Option.bind_some, hrun], fun ys hys => ?_⟩
    have hnext : terminal = .lineEnd ∨ Munch (d.line.phase.allows · = true)
        (text ++ (rest ++ ys)) (.token terminal) text (rest ++ ys) := by
      refine or_iff_not_imp_left.2 fun ht => ?_
      rw [← List.append_nil rest] at hmunch
      exact hmunch.transfer ht hmunch.isAllowed (fun u hu _ => hu) hys
    rw [← hmunch.split, List.append_assoc, Draft.read_of_step hmunch.spells hnext hstep,
      hread ys hys, Position.advanceAll_append]

theorem Draft.start_read (position : Position) (cs : List Char) :
    Draft.start.read position cs = readItems .lineStart position cs := by
  change (readItems .lineStart position cs).map ([] ++ ·) = readItems .lineStart position cs
  cases readItems .lineStart position cs <;> rfl

/-- What is read of a text is read from its first tokens and from what stands behind them. -/
theorem Lexes.read_behind {mid post : List Token} {front behind : List Char} {d : Draft}
    {items : List WrittenItem} (h : Lexes [] position cs (mid ++ post))
    (hbehind : Lexes mid (position.advanceAll front) behind post)
    (hrun : Draft.start.run mid = some d) (hread : readItems .lineStart position cs = .ok items) :
    d.read (position.advanceAll front) behind = .ok items := by
  obtain ⟨last, place, hlast, hreadBehind⟩ := hbehind.exists_run hrun
  have hstart : Draft.start.run [] = some Draft.start := rfl
  obtain ⟨last', place', hwhole, hreadWhole⟩ := h.exists_run hstart
  rw [Draft.run_append, hrun, Option.bind_some, hlast] at hwhole
  obtain rfl := Option.some.inj hwhole
  rw [Draft.start_read, hread] at hreadWhole
  rw [hreadBehind]
  exact Draft.read_nil_eq_ok_iff.2 (Draft.read_nil_eq_ok_iff.1 hreadWhole.symm)

/-- Of two first parts of a text the one that ends first is a part of the other. -/
theorem prefix_of_advanceAll_le {xs ys : List Char} (hxs : xs <+: cs) (hys : ys <+: cs)
    (h : position.advanceAll xs ≤ position.advanceAll ys) : xs <+: ys := by
  rcases List.prefix_or_prefix_of_prefix hxs hys with hshort | ⟨more, rfl⟩
  · exact hshort
  · have hmore : more = [] := by
      by_contra hne
      rw [Position.advanceAll_append] at h
      exact absurd h (not_le_of_gt (Position.lt_advanceAll _ hne))
    exact ⟨[], by rw [hmore, List.append_nil, List.append_nil]⟩

/-- A cut between two adjacent tokens is a cut of the blanks and comments between them. -/
theorem Lexes.exists_cut {pre post : List Token} {t u : Token} {front behind : List Char}
    (h : Lexes [] position (front ++ behind) ((pre ++ [t]) ++ u :: post))
    (hstart : t.span.stop ≤ position.advanceAll front)
    (hstop : position.advanceAll front ≤ u.span.start) :
    ∃ front₀ gap₁ gap₂ after, front = front₀ ++ gap₁ ∧ behind = gap₂ ++ after ∧ after ≠ [] ∧
      (blankRun false gap₁).2 = [] ∧ Lexes [] position front₀ (pre ++ [t]) ∧
        t.span.stop = position.advanceAll front₀ ∧
          Lexes (pre ++ [t]) (position.advanceAll front₀) (gap₁ ++ (gap₂ ++ after))
            (u :: post) := by
  obtain ⟨front₀, behind₀, hsplit, hfront₀, hbehind₀, hlast⟩ := h.exists_split
  obtain ⟨gap, after, rfl, hgap, hgapStop, hafter⟩ := hbehind₀.exists_gap
  have hstop₀ : t.span.stop = position.advanceAll front₀ := by simpa using hlast
  obtain ⟨gap₁, rfl⟩ : front₀ <+: front :=
    prefix_of_advanceAll_le ⟨gap ++ after, hsplit⟩ ⟨behind, rfl⟩ (hstop₀ ▸ hstart)
  have hgapStart : front₀ ++ gap₁ <+: front₀ ++ gap := by
    rw [hgapStop, ← Position.advanceAll_append] at hstop
    exact prefix_of_advanceAll_le ⟨behind, rfl⟩ ⟨after, by rw [← hsplit, List.append_assoc]⟩ hstop
  obtain ⟨gap₂, rfl⟩ := (List.prefix_append_right_inj front₀).1 hgapStart
  obtain rfl : behind = gap₂ ++ after := by simpa using hsplit.symm
  rw [List.append_assoc] at hbehind₀
  exact ⟨front₀, gap₁, gap₂, after, rfl, rfl, hafter.ne_nil (List.cons_ne_nil u post),
    blankRun_nil_of_append hgap, hfront₀, hstop₀, hbehind₀⟩

/-- Blanks between two adjacent tokens make no difference but for places. -/
theorem readItems_blanks {pre post : List Token} {t u : Token} {front behind blanks : List Char}
    {items : List WrittenItem}
    (h : Lexes [] position (front ++ behind) ((pre ++ [t]) ++ u :: post))
    (hstart : t.span.stop ≤ position.advanceAll front)
    (hstop : position.advanceAll front ≤ u.span.start) (hblanks : IsBlanks blanks)
    (hread : readItems .lineStart position (front ++ behind) = .ok items) :
    ∃ items', readItems .lineStart position (front ++ (blanks ++ behind)) = .ok items' ∧
      items'.map Item.unplaced = items.map Item.unplaced := by
  obtain ⟨front₀, gap₁, gap₂, after, rfl, rfl, -, hgap₁, hfront₀, hstop₀, hbehind₀⟩ :=
    h.exists_cut hstart hstop
  -- The tokens in front of the gap are read as before, and so is what follows the gap.
  have hends : ((pre ++ [t]).getLast?.map (·.span.stop)).getD position =
      position.advanceAll front₀ := by simpa using hstop₀
  obtain ⟨next, hrun, hfront⟩ := hfront₀.read_boundary (d := .start) rfl hends
  obtain ⟨items₁, hread₁, rfl⟩ :=
    Draft.read_eq_ok_iff.1 (h.read_behind hbehind₀ hrun hread)
  have hinsert := blankRun_insert hgap₁ hblanks.2 (gap₂ ++ after)
  obtain ⟨items₂, hread₂, hitems⟩ :=
    readItems_unplaced rfl hinsert.symm hread₁ (position.advanceAll front₀)
  have hboundary := isBoundary_of_between (.inl hblanks) (gap₂ ++ after)
  refine ⟨next.parts.items ++ items₂, ?_, by rw [List.map_append, List.map_append, hitems]⟩
  rw [List.append_assoc, ← Draft.start_read, hfront _ (isBoundary_gap hgap₁ hboundary)]
  exact Draft.read_eq_ok_iff.2 ⟨items₂, hread₂, rfl⟩

end

section

variable {phase : Phase} {position position' : Position} {ins behind : List Char} {c : Char}
  {items : List WrittenItem}

theorem not_mem_feed_of_between (hins : IsBlanks ins ∨ IsComment ins) : '\n' ∉ ins := by
  obtain ⟨-, hblanks⟩ | ⟨cs, rfl, hcs⟩ := hins
  · intro hmem
    exact absurd (hblanks _ hmem) (by decide)
  · simp [hcs]

/-- Blanks and comments end in front of a line feed, behind a comment as well. -/
theorem blankRun_beforeFeed (hins : IsBlanks ins ∨ IsComment ins) (inComment : Bool)
    (behind : List Char) :
    blankRun inComment (ins ++ '\n' :: behind) = (ins, '\n' :: behind) := by
  have hrest : ∀ c ∈ ('\n' :: behind).head?, c = '\n' := by simp
  have hend : blankRun false ('\n' :: behind) = ([], '\n' :: behind) := rfl
  cases inComment with
  | true =>
    rw [blankRun_append_of_comment (not_mem_feed_of_between hins) hrest, hend, List.append_nil]
  | false =>
    rw [blankRun_append_of_between (hins.imp_right fun hins => ⟨hins, hrest⟩), hend,
      List.append_nil]

/-- Blanks and comments end where neither starts. -/
theorem isBetweenTokens_of_blankRun {inComment : Bool} {cs rest : List Char}
    (h : (blankRun inComment cs).2 = c :: rest) : isBetweenTokens false c = false := by
  induction cs generalizing inComment with
  | nil => simp [blankRun] at h
  | cons d cs ih =>
    rw [blankRun] at h
    by_cases hd : isBetweenTokens inComment d = true
    · rw [if_pos hd] at h
      exact ih h
    · rw [if_neg hd] at h
      obtain rfl := (List.cons.inj h).1
      cases inComment with
      | false => exact Bool.eq_false_iff.2 hd
      | true =>
        obtain rfl : d = '\n' := by simpa [isBetweenTokens] using hd
        rfl

/-- A line feed is read in the same way wherever it stands on its line. -/
theorem readItems_feed_congr (hline : position.line = position'.line)
    (h : readItems phase position ('\n' :: behind) = .ok items) :
    readItems phase position' ('\n' :: behind) = .ok items := by
  obtain ⟨terminal, text, rest, hscan⟩ := Draft.exists_scan_of_readItems rfl h
  obtain ⟨rfl, -, -⟩ := scan_feed hscan
  have hallows : phase.allows .lineEnd = true := (scan_eq_token hscan).1
  obtain ⟨⟨next, item⟩, hstep⟩ := Option.isSome_iff_exists.1 hallows
  have hadvance : position.advance '\n' = position'.advance '\n' :=
    congrArg (fun line => (⟨line + 1, 1⟩ : Position)) hline
  rw [readItems_feed hstep, ← hadvance, ← readItems_feed hstep, h]

/-- The next token of a text that goes on with a line feed is the same if a boundary is put in front
of the line feed. -/
theorem scan_beforeFeed {inner text rest ys : List Char} {terminal : Terminal}
    (hc : isBetweenTokens false c = false)
    (h : scan phase.allows (c :: (inner ++ '\n' :: behind)) = .token terminal text rest)
    (hys : IsBoundary ys) :
    ∃ inner', text ++ inner' = c :: inner ∧ rest = inner' ++ '\n' :: behind ∧
      scan phase.allows (c :: (inner ++ ys)) = .token terminal text (inner' ++ ys) := by
  by_cases hfeed : c = '\n'
  · subst hfeed
    have hallows := (scan_eq_token h).1
    obtain ⟨rfl, rfl, rfl⟩ := scan_feed h
    exact ⟨inner, rfl, rfl, scan_feed_of_allows hallows _⟩
  · have hmunch := munch_of_scan phase.allows_name hc hfeed h
    obtain ⟨t, heq, ht⟩ := Lexeme.exists_token_of_spells hmunch.spells hmunch.split hc hfeed
    obtain rfl := Lexeme.token.inj heq
    -- The token holds no line feed, so it ends in front of this one.
    have hfree : '\n' ∉ text := hmunch.not_mem_feed (by simpa using ht)
    have hstart : text <+: (c :: inner ++ ['\n']) ++ behind := ⟨rest, by simpa using hmunch.split⟩
    obtain rfl | ⟨inner', hinner⟩ :=
      List.prefix_concat_iff.1 (prefix_of_prefix_append hfree (by simp) hstart)
    · exact absurd (by simp) hfree
    have hsplit := hmunch.split
    rw [← List.cons_append, ← hinner, List.append_assoc] at hsplit
    obtain rfl := List.append_cancel_left hsplit
    have hnext := hmunch.transfer ht hmunch.isAllowed (fun u hu _ => hu) hys
    rw [← List.append_assoc, hinner, List.cons_append] at hnext
    exact ⟨inner', hinner, rfl, hnext.scan_eq phase.allows_name ht⟩

/-- Where nothing is left to read in front of a line feed, blanks or a comment may be added. -/
theorem readItems_gap_feed {gap : List Char} (hins : IsBlanks ins ∨ IsComment ins)
    (hgap : (blankRun false gap).2 = [])
    (h : readItems phase position (gap ++ '\n' :: behind) = .ok items) :
    readItems phase position (gap ++ (ins ++ '\n' :: behind)) = .ok items := by
  obtain ⟨open', hopen⟩ := blankRun_append_of_nil hgap
  have hend : blankRun open' ('\n' :: behind) = ([], '\n' :: behind) := by cases open' <;> rfl
  have hfeed : readItems phase (position.advanceAll gap) ('\n' :: behind) = .ok items := by
    rw [← h]
    apply readItems_congr
    · rw [hopen, hend]
      rfl
    · rw [hopen, hend, List.append_nil]
      rfl
  have hline : (position.advanceAll gap).line = (position.advanceAll (gap ++ ins)).line := by
    rw [Position.line_advanceAll, Position.line_advanceAll, List.count_append,
      List.count_eq_zero_of_not_mem (not_mem_feed_of_between hins), Nat.add_zero]
  rw [← readItems_feed_congr hline hfeed]
  apply readItems_congr
  · rw [hopen, blankRun_beforeFeed hins]
    rfl
  · rw [hopen, blankRun_beforeFeed hins]
    rfl

/-- A text is read from its first token on, whatever stands behind that. -/
theorem readItems_front {front inner : List Char} (h : (blankRun false front).2 = c :: inner)
    (ys : List Char) : readItems phase position (front ++ ys) =
      readItems phase (position.advanceAll (blankRun false front).1) (c :: (inner ++ ys)) := by
  have hne : (blankRun false front).2 ≠ [] := by simp [h]
  have hblank : blankRun false (c :: (inner ++ ys)) = ([], c :: (inner ++ ys)) := by
    simp [blankRun, isBetweenTokens_of_blankRun h]
  apply readItems_congr
  · rw [blankRun_append_of_ne_nil hne, hblank, h]
    rfl
  · rw [blankRun_append_of_ne_nil hne, hblank]
    rfl

/-- Blanks or a comment may be added in front of any line feed, and not even places change. -/
theorem readItems_beforeFeed {front : List Char} (hins : IsBlanks ins ∨ IsComment ins)
    (h : readItems phase position (front ++ '\n' :: behind) = .ok items) :
    readItems phase position (front ++ (ins ++ '\n' :: behind)) = .ok items := by
  induction hn : front.length using Nat.strong_induction_on
    generalizing phase position front items with
  | _ n ih =>
    cases hfront : (blankRun false front).2 with
    | nil => exact readItems_gap_feed hins hfront h
    | cons c inner =>
      have hc := isBetweenTokens_of_blankRun hfront
      rw [readItems_front hfront] at h ⊢
      generalize position.advanceAll (blankRun false front).1 = here at h ⊢
      -- The next token is the same, and it stands in front of the line feed or is the line feed.
      obtain ⟨terminal, text, rest, hscan⟩ := Draft.exists_scan_of_readItems hc h
      obtain ⟨inner', hinner, rfl, hscan'⟩ :=
        scan_beforeFeed hc hscan (isBoundary_of_between hins ('\n' :: behind))
      obtain ⟨hallows, -, htext⟩ := scan_eq_token hscan
      have hsome := Phase.isSome_step phase ⟨terminal, text, ⟨here, here.advanceAll text⟩⟩
      obtain ⟨⟨next, item⟩, hstep⟩ := Option.isSome_iff_exists.1 (hsome.trans hallows)
      rw [readItems_token hc hscan hstep] at h
      obtain ⟨items', hrest, rfl⟩ := map_eq_ok.1 h
      have hshorter : inner'.length < n := by
        have hle := blankRun_length_le false front
        have hlength := congrArg List.length hinner
        have hpos := List.length_pos_iff.2 htext
        rw [hfront] at hle
        rw [List.length_append] at hlength
        omega
      rw [readItems_token hc hscan' hstep, ih inner'.length hshorter hrest rfl]
      rfl

/-- A text with a carriage return in front of every line feed. -/
def withReturns (cs : List Char) : List Char :=
  cs.flatMap fun c => if c = '\n' then ['\r', '\n'] else [c]

/-- Carriage returns in front of line feeds change nothing. -/
theorem readItems_withReturns (front : List Char) {cs : List Char}
    (h : readItems phase position (front ++ (cs ++ behind)) = .ok items) :
    readItems phase position (front ++ (withReturns cs ++ behind)) = .ok items := by
  induction cs generalizing front with
  | nil => exact h
  | cons c cs ih =>
    by_cases hc : c = '\n'
    · subst hc
      have hreturn : IsBlanks ['\r'] := ⟨by simp, by simp [isBlank]⟩
      have hrest := ih (front ++ ['\r', '\n'])
        (by simpa using readItems_beforeFeed (.inl hreturn) h)
      simpa [withReturns] using hrest
    · have hrest := ih (front ++ [c]) (by simpa using h)
      simpa [withReturns, hc] using hrest

end

/-- A line without tokens: blanks, and a comment behind them if there is one. -/
def IsIdleLine (line : List Char) : Prop :=
  ∃ blanks comment, (∀ c ∈ blanks, isBlank c = true) ∧ (comment = [] ∨ IsComment comment) ∧
    line = blanks ++ comment ++ ['\n']

theorem IsIdleLine.readItems_append {line : List Char} (h : IsIdleLine line) (position : Position)
    (behind : List Char) : readItems .lineStart position (line ++ behind) =
      readItems .lineStart (position.advanceAll line) behind := by
  obtain ⟨blanks, comment, hblanks, hcomment, rfl⟩ := h
  have hstep : Phase.lineStart.step ⟨.lineEnd, ['\n'], ⟨.first, .first⟩⟩ =
    some (.lineStart, none) := rfl
  have hfeed : ∀ place, readItems .lineStart place ('\n' :: behind) =
      readItems .lineStart (place.advance '\n') behind := by
    intro place
    rw [readItems_feed hstep]
    cases readItems .lineStart (place.advance '\n') behind <;> rfl
  have hgap : blankRun false (blanks ++ (comment ++ '\n' :: behind)) =
      (blanks ++ comment, '\n' :: behind) := by
    rw [blankRun_append_of_isBlanks hblanks]
    obtain rfl | hcomment := hcomment
    · rfl
    · rw [blankRun_beforeFeed (.inr hcomment)]
  rw [Position.advanceAll_append, Position.advanceAll_cons, Position.advanceAll_nil, ← hfeed]
  simp only [List.append_assoc, List.singleton_append]
  apply readItems_congr
  · rw [hgap]
    rfl
  · rw [hgap]
    rfl

/-- Idle lines are dropped. -/
theorem readItems_idleLines {lines : List (List Char)} (h : ∀ line ∈ lines, IsIdleLine line)
    (position : Position) (behind : List Char) :
    readItems .lineStart position (lines.flatten ++ behind) =
      readItems .lineStart (position.advanceAll lines.flatten) behind := by
  induction lines generalizing position with
  | nil => rfl
  | cons line lines ih =>
    have hline := h line List.mem_cons_self
    rw [List.flatten_cons, List.append_assoc, hline.readItems_append, Position.advanceAll_append]
    exact ih (fun l hl => h l (List.mem_cons_of_mem line hl)) _

/-- The end of a first part of a text lies between two adjacent tokens of the text: not in front of
the end of the one, and not behind the start of the other. -/
def BetweenTokens (front behind : String) : Prop :=
  ∃ pre t u post,
    Lexes [] .first (withLineEnd (front ++ behind).toList) ((pre ++ [t]) ++ u :: post) ∧
      t.span.stop ≤ Position.first.advanceAll front.toList ∧
        Position.first.advanceAll front.toList ≤ u.span.start

/-- A token that the scanner finds comes next. -/
theorem Lexes.of_scan {before tokens : List Token} {position : Position} {d : Draft} {c : Char}
    {cs text rest : List Char} {terminal : Terminal} (hrun : Draft.start.run before = some d)
    (hc : isBetweenTokens false c = false) (hfeed : c ≠ '\n')
    (hscan : scan d.line.phase.allows (c :: cs) = .token terminal text rest)
    (hrest : Lexes (before ++ [⟨terminal, text, ⟨position, position.advanceAll text⟩⟩])
      (position.advanceAll text) rest tokens) :
    Lexes before position (c :: cs)
      (⟨terminal, text, ⟨position, position.advanceAll text⟩⟩ :: tokens) := by
  have hmunch := munch_of_scan d.line.phase.allows_name hc hfeed hscan
  rw [← startsWith_eq hrun] at hmunch
  exact .token hmunch hrest

/-- The last line feed is a line end. -/
theorem Lexes.of_feed {before : List Token} {position : Position} {d : Draft}
    (hrun : Draft.start.run before = some d) (hallows : d.line.phase.allows .lineEnd = true) :
    Lexes before position ['\n']
      [⟨.lineEnd, ['\n'], ⟨position, position.advanceAll ['\n']⟩⟩] := by
  have hmunch : Munch (StartsWith before) ['\n'] (.token .lineEnd) ['\n'] [] := by
    refine ⟨rfl, .feed, (startsWith_iff_allows hrun _).2 hallows, ?_, by simp⟩
    intro l' text' _ _ hstart
    exact hstart.length_le
  exact .token hmunch .done

/-- There is no blank between the first two tokens of this sum, but a place for some. -/
theorem betweenTokens_sum : BetweenTokens "1" "+2\n" := by
  have hlexes : Lexes [] .first ['1', '+', '2', '\n']
      [⟨.number, ['1'], ⟨⟨1, 1⟩, ⟨1, 2⟩⟩⟩, ⟨.operator (.arithmetic .add), ['+'], ⟨⟨1, 2⟩, ⟨1, 3⟩⟩⟩,
        ⟨.number, ['2'], ⟨⟨1, 3⟩, ⟨1, 4⟩⟩⟩, ⟨.lineEnd, ['\n'], ⟨⟨1, 4⟩, ⟨2, 1⟩⟩⟩] :=
    .of_scan (d := .start) rfl rfl (by decide) rfl <| .of_scan rfl rfl (by decide) rfl <|
      .of_scan rfl rfl (by decide) rfl <| .of_feed rfl rfl
  exact ⟨[], _, _, _, hlexes, by decide, by decide⟩

/-- A change of the layout of a text. -/
inductive LayoutEdit : String → String → Prop
  /-- Blanks between two adjacent tokens. -/
  | blanks {front behind blanks : String} (hplace : BetweenTokens front behind)
    (hblanks : ∀ c ∈ blanks.toList, isBlank c = true) :
    LayoutEdit (front ++ behind) (front ++ blanks ++ behind)
  /-- A comment in front of a line feed. -/
  | comment {front behind comment : String} (hcomment : IsComment comment.toList) :
    LayoutEdit (front ++ "\n" ++ behind) (front ++ comment ++ "\n" ++ behind)
  /-- Idle lines between lines, in front of the first one or behind the last one. -/
  | idleLines {front behind : String} {lines : List (List Char)}
    (hfront : front = "" ∨ front.toList.getLast? = some '\n')
    (hlines : ∀ line ∈ lines, IsIdleLine line) :
    LayoutEdit (front ++ behind) (front ++ .ofList lines.flatten ++ behind)
  /-- Other line ends. -/
  | returns (text : String) : LayoutEdit text (.ofList (withReturns text.toList))

section

variable {file text text' : String} {p : Program}

variable [CharacterNames]

/-- Literals have the same values everywhere. -/
theorem exists_mapM_settle_of_unplaced {items items' : List WrittenItem}
    {settled : List (Item Value ScriptText)}
    (h : items'.map Item.unplaced = items.map Item.unplaced)
    (hsettle : items.mapM (Item.settle file) = .ok settled) :
    ∃ settled', items'.mapM (Item.settle file) = .ok settled' ∧
      settled'.map Item.unplaced = settled.map Item.unplaced := by
  have hunplaced := mapM_settle_relocate (fun _ => .first) file items
  have hunplaced' := mapM_settle_relocate (fun _ => .first) file items'
  rw [hsettle] at hunplaced
  change (items'.map Item.unplaced).mapM (Item.settle file) = _ at hunplaced'
  rw [h] at hunplaced'
  obtain ⟨settled', hsettle', hmap⟩ := map_eq_ok.1 (hunplaced'.symm.trans hunplaced)
  exact ⟨settled', hsettle', hmap⟩

/-- Texts that are read to the same items but for places are the same scripts but for places. -/
theorem exists_parse_of_readItems (h : parse file text = .ok p)
    (hread : ∀ items, readItems .lineStart .first (text.toList ++ ['\n']) = .ok items →
      ∃ items', readItems .lineStart .first (text'.toList ++ ['\n']) = .ok items' ∧
        items'.map Item.unplaced = items.map Item.unplaced) :
    ∃ q, parse file text' = .ok q ∧ q.unplaced = p.unplaced := by
  obtain ⟨settled, ⟨items, hitems, hsettle⟩, rfl⟩ := parse_eq_ok_iff_reads.1 h
  obtain ⟨items', hitems', hunplaced⟩ := hread items hitems
  obtain ⟨settled', hsettle', hsettled⟩ := exists_mapM_settle_of_unplaced hunplaced hsettle
  refine ⟨_, parse_eq_ok_iff_reads.2 ⟨settled', ⟨items', hitems', hsettle'⟩, rfl⟩, ?_⟩
  rw [Program.unplaced_ofItems, Program.unplaced_ofItems, hsettled]

theorem parse_of_readItems (h : parse file text = .ok p)
    (hread : ∀ items, readItems .lineStart .first (text.toList ++ ['\n']) = .ok items →
      readItems .lineStart .first (text'.toList ++ ['\n']) = .ok items) :
    parse file text' = .ok p := by
  obtain ⟨settled, ⟨items, hitems, hsettle⟩, rfl⟩ := parse_eq_ok_iff_reads.1 h
  exact parse_eq_ok_iff_reads.2 ⟨settled, ⟨items, hread items hitems, hsettle⟩, rfl⟩

/-- Carriage returns in front of all line feeds change nothing. -/
theorem parse_returns (h : parse file text = .ok p) :
    parse file (.ofList (withReturns text.toList)) = .ok p := by
  refine parse_of_readItems h fun items hitems => ?_
  rw [String.toList_ofList]
  exact readItems_withReturns [] hitems

/-- A comment in front of a line feed changes nothing. -/
theorem parse_comment {front behind comment : String} (hcomment : IsComment comment.toList)
    (h : parse file (front ++ "\n" ++ behind) = .ok p) :
    parse file (front ++ comment ++ "\n" ++ behind) = .ok p := by
  refine parse_of_readItems h fun items hitems => ?_
  have hfeed : "\n".toList = ['\n'] := rfl
  simp only [String.toList_append, List.append_assoc, hfeed, List.singleton_append] at hitems ⊢
  exact readItems_beforeFeed (.inr hcomment) hitems

theorem exists_parse_blanks {front behind blanks : String} (hplace : BetweenTokens front behind)
    (hblanks : ∀ c ∈ blanks.toList, isBlank c = true) (h : parse file (front ++ behind) = .ok p) :
    ∃ q, parse file (front ++ blanks ++ behind) = .ok q ∧ q.unplaced = p.unplaced := by
  by_cases hnil : blanks.toList = []
  · obtain rfl : blanks = "" := String.toList_inj.1 hnil
    exact ⟨p, by simpa using h, rfl⟩
  obtain ⟨pre, t, u, post, hlexes, hstart, hstop⟩ := hplace
  refine exists_parse_of_readItems h fun items hitems => ?_
  rw [← readItems_withLineEnd] at hitems
  simp only [String.toList_append] at hlexes hitems ⊢
  by_cases hend : (front.toList ++ behind.toList).getLast? = some '\n'
  · rw [withLineEnd, if_pos hend] at hlexes hitems
    -- Some token stands behind the blanks, so the last line end stays the last.
    obtain ⟨-, -, gap, after, -, hbehind, hafter, -⟩ := hlexes.exists_cut hstart hstop
    have hne : behind.toList ≠ [] := by simp [hbehind, hafter]
    have hnew : (front.toList ++ blanks.toList ++ behind.toList).getLast? = some '\n' := by
      rw [List.getLast?_append_of_ne_nil _ hne] at hend ⊢
      exact hend
    rw [← readItems_withLineEnd, withLineEnd, if_pos hnew, List.append_assoc]
    exact readItems_blanks hlexes hstart hstop ⟨hnil, hblanks⟩ hitems
  · rw [withLineEnd, if_neg hend, List.append_assoc] at hlexes hitems
    simp only [List.append_assoc]
    exact readItems_blanks hlexes hstart hstop ⟨hnil, hblanks⟩ hitems

theorem exists_parse_idleLines {front behind : String} {lines : List (List Char)}
    (hfront : front = "" ∨ front.toList.getLast? = some '\n')
    (hlines : ∀ line ∈ lines, IsIdleLine line) (h : parse file (front ++ behind) = .ok p) :
    ∃ q, parse file (front ++ .ofList lines.flatten ++ behind) = .ok q ∧
      q.unplaced = p.unplaced := by
  refine exists_parse_of_readItems h fun items hitems => ?_
  simp only [String.toList_append, String.toList_ofList, List.append_assoc] at hitems ⊢
  obtain rfl | hfront := hfront
  · change readItems .lineStart .first (behind.toList ++ ['\n']) = .ok items at hitems
    change ∃ items', readItems .lineStart .first (lines.flatten ++ (behind.toList ++ ['\n'])) =
      .ok items' ∧ items'.map Item.unplaced = items.map Item.unplaced
    rw [readItems_idleLines hlines]
    exact readItems_unplaced rfl rfl hitems _
  · rw [readItems_append hfront] at hitems ⊢
    obtain ⟨items₁, hitems₁, hitems⟩ := bind_eq_ok hitems
    obtain ⟨items₂, hitems₂, rfl⟩ := map_eq_ok.1 hitems
    let place := (Position.first.advanceAll front.toList).advanceAll lines.flatten
    obtain ⟨items₃, hitems₃, hunplaced⟩ := readItems_unplaced rfl rfl hitems₂ place
    refine ⟨items₁ ++ items₃, ?_, by rw [List.map_append, List.map_append, hunplaced]⟩
    rw [hitems₁, readItems_idleLines hlines, hitems₃]
    rfl

/-- Layout does not change meaning: an edited script is the same script but for its places. Other
line ends do not even change places. -/
theorem parse_layoutEdit (h : parse file text = .ok p) :
    (∀ text', LayoutEdit text text' →
      ∃ q, parse file text' = .ok q ∧ q.unplaced = p.unplaced) ∧
    parse file (.ofList (withReturns text.toList)) = .ok p := by
  refine ⟨?_, parse_returns h⟩
  intro text' hedit
  cases hedit with
  | blanks hplace hblanks => exact exists_parse_blanks hplace hblanks h
  | comment hcomment => exact ⟨p, parse_comment hcomment h, rfl⟩
  | idleLines hfront hlines => exact exists_parse_idleLines hfront hlines h
  | returns => exact ⟨p, parse_returns h, rfl⟩

end

attribute [local instance] CharacterNames.none

/-- A sum on a line, with a blank in it, with a comment behind it and with another line end. -/
theorem parse_layoutEdit_sum : ∃ p q r, parse "/a" "1+2\n" = .ok p ∧
    (parse "/a" "1 +2\n" = .ok q ∧ q.unplaced = p.unplaced) ∧
    (parse "/a" "1+2# three\n" = .ok r ∧ r.unplaced = p.unplaced) ∧
    parse "/a" "1+2\r\n" = .ok p := by
  have hparse : (parse "/a" "1+2\n").toOption.isSome = true := by decide +kernel
  obtain ⟨p, hp⟩ := Option.isSome_iff_exists.1 hparse
  rw [toOption_eq_some_iff] at hp
  have hblank : LayoutEdit ("1" ++ "+2\n") ("1" ++ " " ++ "+2\n") :=
    .blanks betweenTokens_sum (List.all_eq_true.1 (by decide))
  have hcomment : LayoutEdit ("1+2" ++ "\n" ++ "") ("1+2" ++ "# three" ++ "\n" ++ "") :=
    .comment ⟨" three".toList, rfl, by decide⟩
  obtain ⟨q, hq⟩ := (parse_layoutEdit hp).1 _ hblank
  obtain ⟨r, hr⟩ := (parse_layoutEdit hp).1 _ hcomment
  exact ⟨p, q, r, hp, hq, hr, (parse_layoutEdit hp).2⟩

end ScriptRunner.Script
