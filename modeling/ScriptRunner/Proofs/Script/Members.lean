import ScriptRunner.Proofs.Script.Parsing

/-!
# Scripts that read a member

The text `owner.member` is a script that reads the binding of another script, provided that the
owner is written as a name and is no keyword. Behind the point every name will do, keywords
included.

## Main definitions

* `ReadsMember` - the text `owner.member` is a script that does nothing but read a member.

## Main statements

* `scan_name`, `scan_dot` - the tokens of such a text.
* `readsMember_iff` - when the text reads a member.
-/

namespace ScriptRunner.Script

section

variable {allowed : Terminal → Bool} {text rest : List Char}

theorem takeName_append (h : IsName text) (hrest : ∀ c ∈ rest.head?, isNameRest c = false) :
    takeName (text ++ rest) = some (text, rest) := by
  obtain ⟨c, cs, rfl, hc, hcs⟩ := h
  have htake : rest.takeWhile isNameRest = [] ∧ rest.dropWhile isNameRest = rest := by
    cases rest with
    | nil => exact ⟨rfl, rfl⟩
    | cons d ds => simp [hrest d rfl]
  simp [takeName, hc, List.takeWhile_append_of_pos hcs, List.dropWhile_append_of_pos hcs, htake]

/-- What starts like a name is a word. -/
theorem Terminal.isWord_of_kind : ∀ t ∈ Terminal.all, t.kind = Terminal.name.kind →
    t.isWord = true := by
  decide +kernel

/-- Only a number starts like a point. -/
theorem Terminal.eq_number_or_dot_of_kind : ∀ t ∈ Terminal.all,
    t.kind = (Terminal.mark .dot).kind → t = .number ∨ t = .mark .dot := by
  decide +kernel

/-- A name is taken to its end, unless it is a keyword that is allowed. -/
theorem scan_name (hname : allowed .name = true)
    (hkeyword : ∀ k, allowed (.keyword k) = true → text ≠ k.text) (h : IsName text)
    (hrest : ∀ c ∈ rest.head?, isNameRest c = false) :
    scan allowed (text ++ rest) = .token .name text rest := by
  have htake := takeName_append h hrest
  obtain ⟨t, text', rest', hscan⟩ := exists_scan_eq_token hname htake
  have hmatch := scan_eq_token_match hscan
  obtain ⟨hallowed, hsplit, -⟩ := scan_eq_token hscan
  have hword : t.isWord = true := by
    obtain ⟨c, ds, rfl, hc⟩ := (Terminal.spells_of_match? hmatch).head
    obtain ⟨d, es, rfl, hd⟩ := h.head
    obtain ⟨rfl, -⟩ := List.cons.inj hsplit
    exact Terminal.isWord_of_kind t t.mem_all (hc.symm.trans hd)
  have htaken := Terminal.takeName_of_isWord hword hmatch
  rw [htake] at htaken
  obtain ⟨rfl, rfl⟩ := by simpa using htaken
  cases t with
  | keyword k => exact absurd (takeKeyword_eq_some.1 hmatch).2 (hkeyword k hallowed)
  | name => exact hscan
  | _ => simp [Terminal.isWord] at hword

/-- A point is a token of its own where no number may stand. -/
theorem scan_dot (hdot : allowed (.mark .dot) = true) (hnumber : allowed .number = false)
    (rest : List Char) : scan allowed ('.' :: rest) = .token (.mark .dot) ['.'] rest := by
  have htake : (Terminal.mark .dot).match? ('.' :: rest) = some (['.'], rest) := by
    simp [Terminal.match?, Mark.text, takeText]
  obtain ⟨t, text', rest', hscan⟩ := exists_scan_eq_token hdot htake
  have hmatch := scan_eq_token_match hscan
  obtain ⟨hallowed, hsplit, -⟩ := scan_eq_token hscan
  obtain ⟨c, ds, rfl, hc⟩ := (Terminal.spells_of_match? hmatch).head
  obtain ⟨rfl, -⟩ := List.cons.inj hsplit
  rcases Terminal.eq_number_or_dot_of_kind t t.mem_all hc.symm with rfl | rfl
  · simp [hnumber] at hallowed
  · rw [htake] at hmatch
    obtain ⟨rfl, rfl⟩ := by simpa using hmatch
    exact hscan

end

section

variable {phase next : Phase} {position : Position} {text rest : List Char}

/-- A token that completes nothing moves the machine on. -/
theorem readItems_token_none {c : Char} {cs : List Char} {terminal : Terminal}
    (hterminal : terminal ≠ .lineEnd) (hc : startKind c = terminal.kind)
    (hscan : scan phase.allows (c :: cs) = .token terminal text rest)
    (hstep : phase.step ⟨terminal, text, ⟨position, position.advanceAll text⟩⟩ =
      some (next, none)) :
    readItems phase position (c :: cs) = readItems next (position.advanceAll text) rest := by
  have hbetween : isBetweenTokens false c = false :=
    Bool.eq_false_iff.2 fun h => Terminal.kind_ne hterminal (.inl h) hc
  rw [readItems_token hbetween hscan hstep]
  cases readItems next (position.advanceAll text) rest <;> rfl

/-- Where a name may stand, one that is no keyword there is read. -/
theorem readItems_name (h : IsName text) (hrest : ∀ c ∈ rest.head?, isNameRest c = false)
    (hkeyword : ∀ k, phase.allows (.keyword k) = true → text ≠ k.text)
    (hstep : phase.step ⟨.name, text, ⟨position, position.advanceAll text⟩⟩ = some (next, none)) :
    readItems phase position (text ++ rest) = readItems next (position.advanceAll text) rest := by
  have hallows : phase.allows .name = true := by
    rw [← Phase.isSome_step phase ⟨.name, text, ⟨position, position.advanceAll text⟩⟩, hstep,
      Option.isSome_some]
  have hscan := scan_name hallows hkeyword h hrest
  obtain ⟨c, cs, rfl, hc⟩ := h.head
  refine readItems_token_none ?_ ?_ hscan hstep
  · simp
  · exact hc

end

/-- The items of a text in which a member follows its owner. -/
theorem readItems_member {owner member : List Char} (howner : IsName owner)
    (hkeyword : ∀ k : Keyword, owner ≠ k.text) (hmember : IsName member) :
    ∃ span, readItems .lineStart .first (owner ++ '.' :: (member ++ ['\n'])) =
      .ok [.statement (.expression (.member (.ofList owner) (.ofList member) span) span)] := by
  let ctx : Context := { opening := .expression }
  let ownerSpan : Span := ⟨.first, Position.first.advanceAll owner⟩
  let memberStart := ownerSpan.stop.advanceAll ['.']
  let whole := ownerSpan.upTo ⟨memberStart, memberStart.advanceAll member⟩
  have hread : readItems .lineStart .first (owner ++ '.' :: (member ++ ['\n'])) =
      readItems (.nameEnd ctx (.ofList owner) ownerSpan) ownerSpan.stop
        ('.' :: (member ++ ['\n'])) :=
    readItems_name howner (by simp; decide) (fun k _ => hkeyword k) rfl
  have hpoint : readItems (.nameEnd ctx (.ofList owner) ownerSpan) ownerSpan.stop
      ('.' :: (member ++ ['\n'])) =
      readItems (.ownerDot ctx (.ofList owner) ownerSpan) memberStart (member ++ ['\n']) :=
    readItems_token_none (by simp) rfl (scan_dot rfl rfl _) rfl
  have hmember : readItems (.ownerDot ctx (.ofList owner) ownerSpan) memberStart
      (member ++ ['\n']) =
      readItems (.operandEnd ctx ⟨.member (.ofList owner) (.ofList member) whole, whole⟩)
        (memberStart.advanceAll member) ['\n'] :=
    readItems_name hmember (by simp; decide) (fun k hk => absurd hk Bool.false_ne_true) rfl
  have hend : (Phase.operandEnd ctx ⟨.member (.ofList owner) (.ofList member) whole, whole⟩).step
      ⟨.lineEnd, ['\n'], whole⟩ = some (.lineStart, some (.statement (.expression
        (.member (.ofList owner) (.ofList member) whole) whole))) := rfl
  refine ⟨whole, ?_⟩
  rw [hread, hpoint, hmember, readItems_feed hend, readItems_nil_eq_ok_iff.2 ⟨rfl, rfl⟩]
  rfl

/-- A line end is added behind a text that ends with a piece without a line feed. -/
theorem withLineEnd_append (cs : List Char) {text : List Char} (hne : text ≠ [])
    (hfree : '\n' ∉ text) : withLineEnd (cs ++ text) = cs ++ (text ++ ['\n']) := by
  have hlast : (cs ++ text).getLast? ≠ some '\n' := by
    rw [List.getLast?_append_of_ne_nil cs hne]
    exact fun hfeed => hfree (List.mem_of_getLast? hfeed)
  rw [withLineEnd, if_neg hlast, List.append_assoc]

variable [CharacterNames]

/-- The text `owner.member` is a script that has no annotations, and one statement: to read the
member of the owner. -/
def ReadsMember (file owner member : String) : Prop :=
  ∃ p span, parse file (owner ++ "." ++ member) = .ok p ∧ p.annotations = [] ∧
    p.statements = [.expression (.member owner member span) span]

theorem ReadsMember.isName {file owner member : String} (h : ReadsMember file owner member) :
    IsName owner.toList := by
  obtain ⟨p, span, hp, -, hstatements⟩ := h
  exact (names_of_parse hp _ (hstatements ▸ List.mem_singleton_self _) :
    Statement.Names WrittenAsName (.expression (.member owner member span) span)).1

/-- The text `owner.member` reads a member exactly if the owner is written as a name, as long as the
owner is no keyword. -/
theorem readsMember_iff {file owner member : String} (hfile : file ≠ "")
    (hkeyword : ∀ k : Keyword, owner.toList ≠ k.text) (hmember : IsName member.toList) :
    ReadsMember file owner member ↔ IsName owner.toList := by
  refine ⟨ReadsMember.isName, fun howner => ?_⟩
  obtain ⟨span, hread⟩ := readItems_member howner hkeyword hmember
  refine ⟨⟨file, [], [.expression (.member owner member span) span]⟩, span, ?_, rfl, rfl⟩
  have htext : withLineEnd (owner ++ "." ++ member).toList =
      owner.toList ++ '.' :: (member.toList ++ ['\n']) := by
    have hne : member.toList ≠ [] := by
      obtain ⟨c, ds, hcons, -⟩ := hmember.head
      rw [hcons]
      exact List.cons_ne_nil c ds
    rw [String.toList_append, withLineEnd_append _ hne (hmember.not_mem (by decide))]
    simp
  simp only [parse, htext, hread, List.mapM_cons, List.mapM_nil, Item.settle, Statement.settle,
    Expr.settle, requireFile_eq_ok hfile, String.ofList_toList]
  rfl

end ScriptRunner.Script
