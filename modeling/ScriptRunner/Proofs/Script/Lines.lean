import ScriptRunner.Proofs.Script.Reading

/-!
# Reading whole lines

No token but a line end holds a line feed, and no blank or comment does. So what is read up to a
line feed does not depend on what stands behind it, and behind a line end the machine is back at the
start of a line. A text that ends with a line is therefore read on its own, wherever it stands.

## Main definitions

* `IsAlien` - a character that is in no number.
* `Scan.append` - what is scanned, with more text behind the rest.
* `readScanned` - what is read from where the next token has been scanned.

## Main statements

* `scan_append` - the token in front of a line feed does not depend on what follows the line feed.
* `readItems_append` - the items of a text that ends with a line come before those of what follows.
-/

namespace ScriptRunner.Script

/-- A character that is in no number. -/
def IsAlien (c : Char) : Prop :=
  c.isDigit = false ∧ c ∉ ['e', 'E', '+', '-', '.']

instance (c : Char) : Decidable (IsAlien c) := inferInstanceAs (Decidable (_ ∧ _))

section

variable {c : Char} {text : List Char}

theorem IsDigits.not_mem (h : IsDigits text) (hc : IsAlien c) : c ∉ text :=
  fun hmem => Bool.false_ne_true (hc.1.symm.trans (h.2 _ hmem))

theorem IsExponent.not_mem (h : IsExponent text) (hc : IsAlien c) : c ∉ text := by
  obtain ⟨hletter, hsign, hdigits⟩ := h
  have hdigits := hdigits.not_mem hc
  have hother := hc.2
  rcases hletter with rfl | rfl <;> rcases hsign with rfl | rfl | rfl <;> simp_all

theorem not_mem_of_optional {L : List Char → Prop} (hL : ∀ text, L text → c ∉ text)
    (h : text = [] ∨ L text) : c ∉ text := by
  rcases h with rfl | h
  · exact List.not_mem_nil
  · exact hL text h

theorem IsNumber.not_mem (h : IsNumber text) (hc : IsAlien c) : c ∉ text := by
  have hpoint : c ≠ '.' := fun heq => hc.2 (by simp [heq])
  obtain ⟨hdigits, hexponent⟩ | ⟨⟨hwhole, hfraction⟩ | hfraction, hexponent⟩ := h
  · have hexponent := not_mem_of_optional (fun _ h => IsExponent.not_mem h hc) hexponent
    simp [hdigits.not_mem hc, hexponent]
  · have hexponent := not_mem_of_optional (fun _ h => IsExponent.not_mem h hc) hexponent
    have hfraction := not_mem_of_optional (fun _ h => IsDigits.not_mem h hc) hfraction
    simp [hwhole.not_mem hc, hpoint, hfraction, hexponent]
  · have hexponent := not_mem_of_optional (fun _ h => IsExponent.not_mem h hc) hexponent
    simp [hpoint, hfraction.not_mem hc, hexponent]

end

theorem IsStringRest.not_mem_feed {text : List Char} (h : IsStringRest text) : '\n' ∉ text := by
  induction h with
  | close => decide
  | plain hquote hbackslash hfeed hrest ih => simp [Ne.symm hfeed, ih]
  | escape hfeed hrest ih => simp [Ne.symm hfeed, ih]

/-- Only a line end holds a line feed. -/
theorem Terminal.Spells.not_mem_feed {t : Terminal} (ht : t ≠ .lineEnd) {text : List Char}
    (h : t.Spells text) : '\n' ∉ text := by
  cases t with
  | lineEnd => exact absurd rfl ht
  | mark m =>
    obtain rfl : text = m.text := h
    cases m <;> decide
  | operator o =>
    obtain rfl : text = o.symbol.toList := h
    rcases o with _ | _ | o | o <;> first | decide | (cases o <;> decide)
  | keyword k =>
    obtain rfl : text = k.text := h
    rcases k with _ | _ | _ | _ <;> decide
  | name => exact IsName.not_mem h (by decide)
  | number => exact IsNumber.not_mem h (by decide)
  | string =>
    obtain ⟨rest, rfl, hrest⟩ := h
    simp [hrest.not_mem_feed]

/-- What is cut off holds a line feed only if it is a line end. -/
theorem Munch.not_mem_feed {allowed : Terminal → Prop} {cs text rest : List Char} {l : Lexeme}
    (h : Munch allowed cs l text rest) (hl : l ≠ .token .lineEnd) : '\n' ∉ text := by
  have hspells := h.spells
  cases l with
  | blanks =>
    intro hmem
    exact absurd (hspells.2 _ hmem) (by decide)
  | comment =>
    obtain ⟨ds, rfl, hds⟩ := hspells
    simp [hds]
  | token t => exact Terminal.Spells.not_mem_feed (fun ht => hl (ht ▸ rfl)) hspells

section

variable {cs : List Char}

/-- What holds no line feed ends before the first one. -/
theorem prefix_of_prefix_append {text ys : List Char} (htext : '\n' ∉ text) (hcs : '\n' ∈ cs)
    (h : text <+: cs ++ ys) : text <+: cs := by
  rcases List.prefix_or_prefix_of_prefix h (List.prefix_append cs ys) with h | h
  · exact h
  · exact absurd (h.subset hcs) htext

/-- A way to take the longest text of a language without line feeds does not look behind a line
feed. -/
theorem TakesLongest.append {L : List Char → Prop}
    {take : List Char → Option (List Char × List Char)} (hlongest : TakesLongest L take)
    (htakes : Takes take) (hL : ∀ text, L text → '\n' ∉ text)
    (hcs : '\n' ∈ cs) (ys : List Char) :
    take (cs ++ ys) = (take cs).map fun taken => (taken.1, taken.2 ++ ys) := by
  have hstays : ∀ {text rest}, take (cs ++ ys) = some (text, rest) → text <+: cs := fun h =>
    prefix_of_prefix_append (hL _ (hlongest.sound h)) hcs ⟨_, (htakes _ _ _ h).1⟩
  cases h : take cs with
  | none =>
    cases h' : take (cs ++ ys) with
    | none => rfl
    | some taken =>
      -- What is taken stands in front of the line feed already.
      obtain ⟨rest, hrest⟩ := hstays h'
      obtain ⟨_, _, htake, -⟩ := hlongest.longest rest (hlongest.sound h')
      simp [hrest, h] at htake
  | some taken =>
    obtain ⟨text, rest⟩ := taken
    obtain ⟨hsplit, -⟩ := htakes _ _ _ h
    obtain ⟨text', rest', htake, hle⟩ := hlongest.longest (rest ++ ys) (hlongest.sound h)
    rw [← List.append_assoc, hsplit] at htake
    obtain ⟨after, hafter⟩ := hstays htake
    obtain ⟨text'', rest'', htake', hle'⟩ := hlongest.longest after (hlongest.sound htake)
    rw [hafter, h] at htake'
    obtain ⟨rfl, rfl⟩ := Prod.mk.inj (Option.some.inj htake')
    obtain rfl : text' = text := List.IsPrefix.eq_of_length_le
      (List.prefix_of_prefix_length_le ⟨after, hafter⟩ ⟨rest, hsplit⟩ hle') hle
    have hsplit' := (htakes _ _ _ htake).1
    rw [← hsplit, List.append_assoc] at hsplit'
    rw [htake, List.append_cancel_left hsplit', Option.map_some]

theorem Terminal.match?_append (t : Terminal) (hcs : '\n' ∈ cs) (ys : List Char) :
    t.match? (cs ++ ys) = (t.match? cs).map fun taken => (taken.1, taken.2 ++ ys) := by
  by_cases hlineEnd : t = .lineEnd
  · subst hlineEnd
    cases cs with
    | nil => simp at hcs
    | cons c cs => by_cases hc : c = '\n' <;> simp [match?, takeText, hc]
  by_cases hkeyword : ∃ k, t = .keyword k
  · obtain ⟨k, rfl⟩ := hkeyword
    have hname := takesLongest_takeName.append takes_takeName
      (fun text => Terminal.Spells.not_mem_feed (t := .name) (by simp)) hcs ys
    simp only [match?, takeKeyword, hname]
    cases takeName cs with
    | none => rfl
    | some taken => by_cases htext : taken.1 = k.text <;> simp [htext]
  · exact (takesLongest_match? hlineEnd (not_exists.1 hkeyword)).append t.takes_match?
      (fun text => Spells.not_mem_feed hlineEnd) hcs ys

theorem firstMatch_append (terminals : List Terminal) (hcs : '\n' ∈ cs) (ys : List Char) :
    firstMatch terminals (cs ++ ys) =
      (firstMatch terminals cs).map fun found => (found.1, found.2.1, found.2.2 ++ ys) := by
  unfold firstMatch
  induction terminals with
  | nil => rfl
  | cons t terminals ih =>
    rw [List.findSome?_cons, List.findSome?_cons, ih, t.match?_append hcs ys]
    cases t.match? cs <;> rfl

/-- What is scanned, with more text behind the rest. -/
def Scan.append (ys : List Char) : Scan → Scan
  | token terminal text rest => .token terminal text (rest ++ ys)
  | unexpected terminal text => .unexpected terminal text
  | unknown => .unknown

/-- The token in front of a line feed does not depend on what follows the line feed. -/
theorem scan_append (allowed : Terminal → Bool) (hcs : '\n' ∈ cs) (ys : List Char) :
    scan allowed (cs ++ ys) = (scan allowed cs).append ys := by
  unfold scan
  rw [firstMatch_append _ hcs, firstMatch_append _ hcs]
  cases firstMatch (Terminal.all.filter allowed) cs with
  | some found => rfl
  | none => cases firstMatch Terminal.all cs <;> rfl

/-- Blanks and comments end before a line feed. -/
theorem blankRun_append_of_mem (inComment : Bool) (hcs : '\n' ∈ cs) (ys : List Char) :
    blankRun inComment (cs ++ ys) =
      ((blankRun inComment cs).1, (blankRun inComment cs).2 ++ ys) := by
  induction cs generalizing inComment with
  | nil => simp at hcs
  | cons c cs ih =>
    rw [List.cons_append, blankRun, blankRun]
    split
    next hbetween =>
      have hc : '\n' ≠ c := by
        rintro rfl
        cases inComment <;> exact absurd hbetween (by decide)
      rw [ih _ ((List.mem_cons.1 hcs).resolve_left hc)]
    · rfl

/-- Blanks and comments hold no line feed. -/
theorem not_mem_feed_blankRun (inComment : Bool) (cs : List Char) :
    '\n' ∉ (blankRun inComment cs).1 := by
  induction cs generalizing inComment with
  | nil => exact List.not_mem_nil
  | cons c cs ih =>
    rw [blankRun]
    split
    next hbetween =>
      refine List.not_mem_cons_of_ne_of_not_mem ?_ (ih _)
      rintro rfl
      cases inComment <;> exact absurd hbetween (by decide)
    · exact List.not_mem_nil

end

/-- What is read from a place on where the next token has been scanned. -/
def readScanned (phase : Phase) (here : Position) (cs : List Char) :
    Scan → Except (SyntaxFault × Position) (List WrittenItem)
  | .token terminal text rest =>
    match phase.step ⟨terminal, text, ⟨here, here.advanceAll text⟩⟩ with
    | some (next, item) => (readItems next (here.advanceAll text) rest).map (item.toList ++ ·)
    | none => .error (.ofToken terminal text, here)
  | .unexpected terminal text => .error (.ofToken terminal text, here)
  | .unknown =>
    match cs, phase with
    | c :: _, _ => .error (.unexpectedCharacter c, here)
    | [], .lineStart => .ok []
    | [], _ => .error (.unexpectedEnd, here)

theorem readItems_eq_readScanned (phase : Phase) (position : Position) (cs : List Char) :
    readItems phase position cs = readScanned phase (position.advanceAll (blankRun false cs).1)
      (blankRun false cs).2 (scan phase.allows (blankRun false cs).2) := by
  rw [readItems]
  generalize blankRun false cs = x
  obtain ⟨blanks, rest⟩ := x
  dsimp only
  split
  next terminal text behind hscan =>
    rw [hscan, readScanned]
    cases hstep : phase.step ⟨terminal, text, ⟨position.advanceAll blanks,
        (position.advanceAll blanks).advanceAll text⟩⟩ with
    | none => rfl
    | some result =>
      obtain ⟨next, item⟩ := result
      dsimp only
      cases readItems next ((position.advanceAll blanks).advanceAll text) behind <;> rfl
  next hscan => rw [hscan, readScanned]
  next hscan =>
    refine Eq.trans ?_ (congrArg (readScanned phase _ rest) hscan).symm
    cases rest <;> cases phase <;> rfl

/-- Behind a token that takes the last line feed the machine is at the start of a line. -/
theorem eq_lineStart_of_step {phase next : Phase} {terminal : Terminal} {text : List Char}
    {span : Span} {item : Option WrittenItem} (hspells : terminal.Spells text) (hfeed : '\n' ∈ text)
    (hstep : phase.step ⟨terminal, text, span⟩ = some (next, item)) : next = .lineStart := by
  obtain rfl : terminal = .lineEnd := by_contra fun h => hspells.not_mem_feed h hfeed
  exact (Phase.step_lineEnd hstep).1

/-- A text keeps its last line feed when what stands in front of the rest is cut off. -/
theorem getLast?_of_append {text rest : List Char} (hne : rest ≠ [])
    (h : (text ++ rest).getLast? = some '\n') : rest.getLast? = some '\n' := by
  rwa [List.getLast?_append_of_ne_nil _ hne] at h

/-- The items of a text that ends with a line come before those of what follows, which is read from
the start of a line. -/
theorem readItems_append {phase : Phase} {position : Position} {cs : List Char}
    (hcs : cs.getLast? = some '\n') (ys : List Char) :
    readItems phase position (cs ++ ys) = readItems phase position cs >>= fun items =>
      (readItems .lineStart (position.advanceAll cs) ys).map (items ++ ·) := by
  induction hn : cs.length using Nat.strong_induction_on generalizing phase position cs with
  | _ n ih =>
    have happ := blankRun_append false cs
    have hblanks := not_mem_feed_blankRun false cs
    rw [readItems_eq_readScanned, readItems_eq_readScanned phase position cs,
      blankRun_append_of_mem false (List.mem_of_getLast? hcs)]
    generalize blankRun false cs = x at happ hblanks
    obtain ⟨blanks, behind⟩ := x
    dsimp only at happ hblanks ⊢
    subst happ
    -- The last line feed stands behind the blanks.
    have hne : behind ≠ [] := by
      rintro rfl
      exact hblanks (List.mem_of_getLast? (by simpa using hcs))
    have hbehind := getLast?_of_append hne hcs
    rw [scan_append _ (List.mem_of_getLast? hbehind), Position.advanceAll_append]
    cases hscan : scan phase.allows behind with
    | token terminal text rest =>
      obtain ⟨-, rfl, htext⟩ := scan_eq_token hscan
      simp only [Scan.append, readScanned]
      cases hstep : phase.step ⟨terminal, text, ⟨position.advanceAll blanks,
          (position.advanceAll blanks).advanceAll text⟩⟩ with
      | none => rfl
      | some result =>
        obtain ⟨next, item⟩ := result
        have hrest : readItems next ((position.advanceAll blanks).advanceAll text) (rest ++ ys) =
            readItems next ((position.advanceAll blanks).advanceAll text) rest >>= fun items =>
              (readItems .lineStart (((position.advanceAll blanks).advanceAll text).advanceAll rest)
                ys).map (items ++ ·) := by
          by_cases hend : rest = []
          · subst hend
            obtain rfl := eq_lineStart_of_step
              (Terminal.spells_of_match? (scan_eq_token_match hscan))
              (List.mem_of_getLast? (by simpa using hbehind)) hstep
            rw [readItems_nil_eq_ok_iff.2 ⟨rfl, rfl⟩, List.nil_append, Position.advanceAll_nil]
            cases readItems .lineStart _ ys <;> rfl
          · have hlength := List.length_pos_iff.2 htext
            refine ih rest.length ?_ (getLast?_of_append hend hbehind) rfl
            simp only [← hn, List.length_append]
            omega
        dsimp only
        rw [hrest, Position.advanceAll_append]
        cases readItems next ((position.advanceAll blanks).advanceAll text) rest with
        | error fault => rfl
        | ok items =>
          cases readItems .lineStart _ ys <;> simp [Except.map, bind, Except.bind]
    | unexpected terminal text => rfl
    | unknown =>
      obtain ⟨c, cs, rfl⟩ := List.exists_cons_of_ne_nil hne
      rfl

end ScriptRunner.Script
