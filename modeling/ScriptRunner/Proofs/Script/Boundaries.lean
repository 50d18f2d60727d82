import ScriptRunner.Proofs.Script.Lines
import ScriptRunner.Proofs.Script.Members

/-!
# Where tokens end

A token takes nothing of what stands behind a blank, a comment or a line feed, strings aside, and
those end with their quote. So a text that has been cut into tokens may be followed by anything that
starts with one of them, and a token that is read at one place is read at another one where the
terminals that start like it are not more than at the first.

## Main definitions

* `IsBoundary` - a text that no token reaches into.

## Main statements

* `prefix_of_isBoundary` - what fits in front of a boundary.
* `Munch.transfer`, `Munch.truncate` - the next token of a text, with another text behind it.
* `readItems_spelled` - a token in front of a boundary is read.
* `readItems_val` - the start of a declaration is read.
-/

namespace ScriptRunner.Script

/-- A text that no token reaches into: it is empty or starts with a blank, a comment or a line
feed. -/
def IsBoundary (ys : List Char) : Prop :=
  ∀ c ∈ ys.head?, isBetweenTokens false c = true ∨ c = '\n'

theorem isBoundary_blank (ys : List Char) : IsBoundary (' ' :: ys) := fun c hc => by
  obtain rfl : ' ' = c := by simpa using hc
  exact .inl rfl

theorem isBoundary_feed (ys : List Char) : IsBoundary ('\n' :: ys) := fun c hc =>
  .inr (by simpa using hc.symm)

/-- What stands between tokens is in no name and in no number. -/
theorem not_isNameRest_and_isAlien_of_isBetweenTokens {c : Char}
    (hc : isBetweenTokens false c = true) : isNameRest c = false ∧ IsAlien c := by
  have hcases : c = ' ' ∨ c = '\t' ∨ c = '\x0c' ∨ c = '\r' ∨ c = '#' := by
    simpa [isBetweenTokens, isBlank, or_assoc] using hc
  rcases hcases with rfl | rfl | rfl | rfl | rfl <;> decide

/-- What stands between tokens is in no mark and in no operator. -/
theorem not_isBetweenTokens_of_mem_fixed? {t : Terminal} {text : List Char} (h : text ∈ t.fixed?)
    {c : Char} (hmem : c ∈ text) : isBetweenTokens false c = false := by
  have hall : ∀ t ∈ Terminal.all, ∀ text ∈ t.fixed?,
      text.all (!isBetweenTokens false ·) = true := by
    decide +kernel
  simpa using List.all_eq_true.1 (hall t t.mem_all text h) c hmem

/-- Of the terminals but the line end only strings hold what stands between tokens. -/
theorem Terminal.Spells.eq_string {t : Terminal} {text : List Char} (h : t.Spells text)
    (ht : t ≠ .lineEnd) {c : Char} (hc : isBetweenTokens false c = true) (hmem : c ∈ text) :
    t = .string := by
  obtain ⟨hrest, halien⟩ := not_isNameRest_and_isAlien_of_isBetweenTokens hc
  have hname : IsName text → False := fun hname =>
    Bool.false_ne_true (hrest.symm.trans (hname.isNameRest hmem))
  have hfixed : text ∈ t.fixed? → False := fun hfixed =>
    Bool.false_ne_true ((not_isBetweenTokens_of_mem_fixed? hfixed hmem).symm.trans hc)
  cases t with
  | lineEnd => exact absurd rfl ht
  | mark m => exact (hfixed (congrArg some h.symm)).elim
  | operator o => exact (hfixed (congrArg some h.symm)).elim
  | keyword k =>
    obtain rfl : text = k.text := h
    exact (hname k.isName_text).elim
  | name => exact (hname h).elim
  | number => exact absurd hmem (IsNumber.not_mem h halien)
  | string => rfl

/-- No string starts with another one. -/
theorem IsString.eq_of_prefix {text text' : List Char} (h : IsString text) (h' : IsString text')
    (hstart : text <+: text') : text = text' := by
  obtain ⟨rest, rfl, hrest⟩ := h
  obtain ⟨rest', rfl, hrest'⟩ := h'
  obtain ⟨more, hmore⟩ := hstart
  obtain rfl : rest ++ more = rest' := (List.cons.inj hmore).2
  have htake := takeStringRest_append hrest more
  have htake' := takeStringRest_append hrest' []
  rw [List.append_nil, htake] at htake'
  rw [← (Prod.mk.inj (Option.some.inj htake')).1]

/-- Only a string starts like a string. -/
theorem Terminal.eq_string_of_kind : ∀ t ∈ Terminal.all, t.kind = Terminal.string.kind →
    t = .string := by
  decide +kernel

/-- What fits where a token stands fits in front of the next boundary, or it is that token. -/
theorem prefix_of_isBoundary {t : Terminal} {l : Lexeme} {text text' inner ys : List Char}
    (hys : IsBoundary ys) (ht : t ≠ .lineEnd) (hspells : t.Spells text) (hspells' : l.Spells text')
    (hstart : text' <+: text ++ (inner ++ ys)) :
    ∃ u : Terminal, l = .token u ∧ u.kind = t.kind ∧ (text' <+: text ++ inner ∨ text' = text) := by
  obtain ⟨c, ds, rfl, hc⟩ := hspells.head
  obtain ⟨more, hmore⟩ := hstart
  obtain ⟨u, rfl, hu⟩ := Lexeme.exists_token_of_spells hspells' hmore
    (Bool.eq_false_iff.2 fun hbetween => Terminal.kind_ne ht (.inl hbetween) hc)
    fun hfeed => Terminal.kind_ne ht (.inr hfeed) hc
  obtain ⟨c', ds', rfl, hc'⟩ := Terminal.Spells.head hspells'
  obtain ⟨rfl, -⟩ := List.cons.inj hmore
  have hkind : u.kind = t.kind := hc'.symm.trans hc
  refine ⟨u, rfl, hkind, ?_⟩
  have hstarts : c' :: ds ++ inner <+: c' :: ds ++ (inner ++ ys) := ⟨ys, by simp⟩
  rcases List.prefix_or_prefix_of_prefix ⟨more, hmore⟩ hstarts with hshort | ⟨beyond, hbeyond⟩
  · exact .inl hshort
  cases beyond with
  | nil =>
    rw [List.append_nil] at hbeyond
    exact .inl (hbeyond ▸ List.prefix_rfl)
  | cons d beyond =>
    -- What reaches beyond the boundary is a string, and so is the token.
    rw [← hbeyond, List.append_assoc, List.append_assoc] at hmore
    have hhead : d ∈ ys.head? := by
      rw [← List.append_cancel_left (List.append_cancel_left hmore)]
      rfl
    have hmem : d ∈ c' :: ds' := hbeyond ▸ by simp
    have hbetween : isBetweenTokens false d = true := (hys d hhead).resolve_right fun hfeed =>
      Terminal.Spells.not_mem_feed hu hspells' (hfeed ▸ hmem)
    obtain rfl := Terminal.Spells.eq_string hspells' hu hbetween hmem
    obtain rfl := Terminal.eq_string_of_kind t t.mem_all hkind.symm
    have hstart : c' :: ds <+: c' :: ds' := ⟨inner ++ d :: beyond, by rw [← hbeyond]; simp⟩
    exact .inr (IsString.eq_of_prefix hspells hspells' hstart).symm

section

variable {A B : Terminal → Prop} {t : Terminal} {l : Lexeme} {cs text inner rest ys : List Char}

theorem Munch.starts (h : Munch A cs l text (inner ++ rest)) : text ++ inner <+: cs :=
  ⟨rest, by rw [List.append_assoc, h.split]⟩

/-- What comes next does not depend on what is cut off behind it. -/
theorem Munch.truncate (h : Munch A cs l text (inner ++ rest)) :
    Munch A (text ++ inner) l text inner where
  split := rfl
  spells := h.spells
  isAllowed := h.isAllowed
  longest l' text' hallowed hspells hstart :=
    h.longest l' text' hallowed hspells (hstart.trans h.starts)
  keyword_first := h.keyword_first

/-- The token that comes next does not depend on what stands behind a boundary, nor on terminals
that start otherwise. -/
theorem Munch.transfer (h : Munch A cs (.token t) text (inner ++ rest)) (ht : t ≠ .lineEnd)
    (hallowed : B t) (hAB : ∀ u, B u → u.kind = t.kind → A u) (hys : IsBoundary ys) :
    Munch B (text ++ (inner ++ ys)) (.token t) text (inner ++ ys) where
  split := rfl
  spells := h.spells
  isAllowed := hallowed
  longest l' text' hallowed' hspells' hstart := by
    obtain ⟨u, rfl, hkind, hshort | rfl⟩ := prefix_of_isBoundary hys ht h.spells hspells' hstart
    · exact h.longest (.token u) _ (hAB u hallowed' hkind) hspells'
        (hshort.trans h.starts)
    · exact Nat.le_refl _
  keyword_first hname k hk := by
    refine h.keyword_first hname k (hAB _ hk ?_)
    rw [Lexeme.token.inj hname]
    rfl

/-- A token in front of a boundary comes next, unless it is a name that is a keyword there. -/
theorem munch_of_isBoundary (hspells : t.Spells text) (ht : t ≠ .lineEnd) (hallowed : B t)
    (hname : t = .name → ∀ k, B (.keyword k) → text ≠ k.text) (hys : IsBoundary ys) :
    Munch B (text ++ ys) (.token t) text ys where
  split := rfl
  spells := hspells
  isAllowed := hallowed
  longest l' text' _ hspells' hstart := by
    have hstart : text' <+: text ++ ([] ++ ys) := hstart
    obtain ⟨-, -, -, hshort | rfl⟩ := prefix_of_isBoundary hys ht hspells hspells' hstart
    · simpa using hshort.length_le
    · exact Nat.le_refl _
  keyword_first hl := hname (Lexeme.token.inj hl)

end

section

variable {phase next : Phase} {position : Position} {text ys : List Char}

/-- A token in front of a boundary is read. -/
theorem readItems_spelled {t : Terminal} (hspells : t.Spells text) (ht : t ≠ .lineEnd)
    (hname : t = .name → ∀ k, phase.allows (.keyword k) = true → text ≠ k.text)
    (hys : IsBoundary ys)
    (hstep : phase.step ⟨t, text, ⟨position, position.advanceAll text⟩⟩ = some (next, none)) :
    readItems phase position (text ++ ys) = readItems next (position.advanceAll text) ys := by
  have hallows : phase.allows t = true := by
    rw [← Phase.isSome_step phase ⟨t, text, ⟨position, position.advanceAll text⟩⟩, hstep,
      Option.isSome_some]
  have hscan := (munch_of_isBoundary hspells ht hallows hname hys).scan_eq phase.allows_name ht
  obtain ⟨c, ds, rfl, hc⟩ := hspells.head
  exact readItems_token_none ht hc hscan hstep

theorem readItems_blank (phase : Phase) (position : Position) (ys : List Char) :
    readItems phase position (' ' :: ys) = readItems phase (position.advance ' ') ys := by
  have hblanks : IsBlanks [' '] := ⟨by simp, by simp [isBlank]⟩
  exact readItems_skip (.inl hblanks)

/-- The start of a declaration is read. -/
theorem readItems_val {name : List Char} (hname : IsName name) (position : Position)
    (cs : List Char) :
    readItems .lineStart position ("val ".toList ++ (name ++ (" = ".toList ++ cs))) =
      readItems (.beforeOperand { opening := .val position (.ofList name) })
        (position.advanceAll ("val ".toList ++ (name ++ " = ".toList))) cs := by
  let afterKeyword := position.advanceAll Keyword.val.text
  let afterName := (afterKeyword.advance ' ').advanceAll name
  have hkeyword : readItems .lineStart position (Keyword.val.text ++
      ' ' :: (name ++ (" = ".toList ++ cs))) = readItems (.valKeyword position) afterKeyword
        (' ' :: (name ++ (" = ".toList ++ cs))) :=
    readItems_spelled (t := .keyword .val) rfl (by simp) (by simp) (isBoundary_blank _) rfl
  have hname : readItems (.valKeyword position) (afterKeyword.advance ' ')
      (name ++ ' ' :: (Mark.assign.text ++ ' ' :: cs)) =
        readItems (.valName position (.ofList name)) afterName
          (' ' :: (Mark.assign.text ++ ' ' :: cs)) :=
    readItems_spelled (t := .name) hname (by simp) (fun _ k hk => absurd hk Bool.false_ne_true)
      (isBoundary_blank _) rfl
  have hassign : readItems (.valName position (.ofList name)) (afterName.advance ' ')
      (Mark.assign.text ++ ' ' :: cs) =
        readItems (.beforeOperand { opening := .val position (.ofList name) })
          ((afterName.advance ' ').advanceAll Mark.assign.text) (' ' :: cs) :=
    readItems_spelled (t := .mark .assign) rfl (by simp) (by simp) (isBoundary_blank _) rfl
  calc
    _ = readItems (.valKeyword position) afterKeyword
        (' ' :: (name ++ (" = ".toList ++ cs))) := hkeyword
    _ = readItems (.valName position (.ofList name)) afterName
        (' ' :: (Mark.assign.text ++ ' ' :: cs)) := by rw [readItems_blank]; exact hname
    _ = readItems (.beforeOperand { opening := .val position (.ofList name) })
        ((afterName.advance ' ').advanceAll Mark.assign.text) (' ' :: cs) := by
      rw [readItems_blank, hassign]
    _ = _ := by
      rw [readItems_blank, Position.advanceAll_append, Position.advanceAll_append]
      rfl

end

end ScriptRunner.Script
