import ScriptRunner.Proofs.Script.Reading

/-!
# Parsing

A text is accepted exactly if its tokens have a derivation and its literals have values. The script
that it denotes is the one that the derivation determines.

## Main definitions

* `Token.Decodes` - a token has a value if it is a number or a string.
* `Item.decode?`, `ScriptTree.program?` - a syntax tree with the values of its literals.

## Main statements

* `Item.toOption_settle` - working out the literals of an item gives each its value.
* `ScriptTree.isSome_program?_iff` - a derivation determines a script if all its tokens decode.
* `parse_eq_ok_iff` - a text is accepted exactly if it has a derivation that determines a script.
* `parse_iff_derivation` - what is accepted, and what it denotes.
-/

namespace ScriptRunner.Script

theorem requireFile_eq_ok {file : String} (h : file ≠ "") : requireFile file = .ok () := if_neg h

variable [CharacterNames]

/-- A token has a value if it is a number or a string. -/
def Token.Decodes (t : Token) : Prop :=
  match t.terminal with
  | .number => ∃ v, numberValue t.text = .ok v
  | .string => ∃ s, stringContent t.text = .ok s
  | _ => True

/-- An expression with the values of its literals, if they all have one. -/
def Expr.decode? : Expr Written → Option (Expr Value)
  | literal w span => w.value.toOption.map (.literal · span)
  | name n span => some (.name n span)
  | member owner n span => some (.member owner n span)
  | binary op left right span => do
    let left ← left.decode?
    let right ← right.decode?
    some (.binary op left right span)
  | negate operand span => operand.decode?.map (.negate · span)

/-- A statement with the values of its literals, if they all have one. -/
def Statement.decode? : Statement Written → Option (Statement Value)
  | val name value span => value.decode?.map (.val name · span)
  | print value span => value.decode?.map (.print · span)
  | expression value span => value.decode?.map (.expression · span)

/-- An item with the values of its literals, if they all have one. -/
def Item.decode? : WrittenItem → Option (Item Value ScriptText)
  | annotate target name argument span =>
    (stringContent argument).toOption.map (.annotate target name · span)
  | statement s => s.decode?.map .statement

/-- The script that a derivation determines, if its literals have values. -/
def ScriptTree.program? (file : String) (script : ScriptTree) : Option Program :=
  (script.items.mapM Item.decode?).map (.ofItems file)

section

variable {file : String}

theorem Written.toOption_settle (h : file ≠ "") (w : Written) :
    (w.settle file).toOption = w.value.toOption := by
  cases w with
  | truth b =>
    rw [settle, requireFile_eq_ok h]
    rfl
  | number text | string text => exact toOption_mapError _

theorem Expr.toOption_settle (h : file ≠ "") (e : Expr Written) :
    (e.settle file).toOption = e.decode? := by
  induction e with
  | literal w span =>
    rw [decode?, ← Written.toOption_settle h, settle]
    cases w.settle file <;> rfl
  | name n span => rfl
  | member owner n span =>
    rw [settle, requireFile_eq_ok h]
    rfl
  | binary op left right span ihLeft ihRight =>
    rw [decode?, ← ihLeft, ← ihRight, settle, requireFile_eq_ok h]
    cases left.settle file <;> cases right.settle file <;> rfl
  | negate operand span ih =>
    rw [decode?, ← ih, settle, requireFile_eq_ok h]
    cases operand.settle file <;> rfl

theorem Statement.toOption_settle (h : file ≠ "") (st : Statement Written) :
    (st.settle file).toOption = st.decode? := by
  cases st with
  | val name value span =>
    rw [decode?, ← Expr.toOption_settle h, settle, requireFile_eq_ok h]
    cases value.settle file <;> rfl
  | print value span | expression value span =>
    rw [decode?, ← Expr.toOption_settle h, settle, requireFile_eq_ok h]
    cases value.settle file <;> rfl

/-- Working out the literals of an item gives each of them its value. -/
theorem Item.toOption_settle (h : file ≠ "") (i : WrittenItem) :
    (i.settle file).toOption = i.decode? := by
  cases i with
  | annotate target name argument span =>
    rw [decode?, settle, requireFile_eq_ok h]
    cases stringContent argument <;> rfl
  | statement st =>
    rw [decode?, ← Statement.toOption_settle h, settle]
    cases st.settle file <;> rfl

/-- Without a file name no statement can be placed. -/
theorem Statement.settle_unnamed_ne_ok (st : Statement Written) (st' : Statement Value) :
    st.settle "" ≠ .ok st' := by
  intro h
  cases st with
  | val name value span | print value span | expression value span =>
    obtain ⟨_, -, h⟩ := bind_eq_ok h
    obtain ⟨_, hfile, -⟩ := bind_eq_ok h
    simp [requireFile] at hfile

theorem Item.settle_unnamed_ne_ok (i : WrittenItem) (i' : Item Value ScriptText) :
    i.settle "" ≠ .ok i' := by
  intro h
  cases i with
  | annotate target name argument span =>
    obtain ⟨_, -, h⟩ := bind_eq_ok h
    obtain ⟨_, hfile, -⟩ := bind_eq_ok h
    simp [requireFile] at hfile
  | statement st =>
    obtain ⟨st', hst, -⟩ := bind_eq_ok h
    exact st.settle_unnamed_ne_ok st' hst

end

@[simp] theorem Token.decodes_number (leaf : Leaf) :
    (leaf.as .number).Decodes ↔ ∃ v, numberValue leaf.text = .ok v := Iff.rfl

@[simp] theorem Token.decodes_string (leaf : Leaf) :
    (leaf.as .string).Decodes ↔ ∃ s, stringContent leaf.text = .ok s := Iff.rfl

/-- Only numbers and strings have values that may be missing. -/
theorem Token.decodes_of_ne (leaf : Leaf) {terminal : Terminal} (hnumber : terminal ≠ .number)
    (hstring : terminal ≠ .string) : (leaf.as terminal).Decodes := by
  cases terminal with
  | number => exact absurd rfl hnumber
  | string => exact absurd rfl hstring
  | _ => trivial

theorem Written.isSome_number_iff (text : List Char) :
    (number text).value.toOption.isSome = true ↔ ∃ v, numberValue text = .ok v :=
  isSome_toOption_iff

theorem Written.isSome_string_iff (text : List Char) :
    (string text).value.toOption.isSome = true ↔ ∃ s, stringContent text = .ok s := by
  rw [isSome_toOption_iff, value]
  cases stringContent text <;> simp

theorem Expr.isSome_decode?_binary (op : Operator) (left right : Expr Written) (span : Span) :
    (binary op left right span).decode?.isSome = true ↔
      left.decode?.isSome = true ∧ right.decode?.isSome = true := by
  rw [decode?]
  cases left.decode? <;> cases right.decode? <;> simp

/-- The expression of a derivation has a value for each literal if its tokens have. -/
theorem ExprTree.isSome_decode?_iff {l : Level} (e : ExprTree l) :
    e.operand.expr.decode?.isSome = true ↔ ∀ t ∈ e.tokens, t.Decodes := by
  induction e with
  | ofSum s ih | ofProduct s ih | ofUnary s ih | ofAtom s ih => exact ih
  | comparison left op sign right ihLeft ihRight | sum left op sign right ihLeft ihRight
  | product left op sign right ihLeft ihRight =>
    simp [operand, Operand.binary, Expr.isSome_decode?_binary, ihLeft, ihRight, tokens,
      Token.decodes_of_ne, or_imp, forall_and]
  | negate minus operand ih =>
    simp [ExprTree.operand, Operand.negate, Expr.decode?, ih, tokens, Terminal.minus,
      Token.decodes_of_ne]
  | number leaf =>
    simp [operand, Expr.decode?, Written.isSome_number_iff, tokens]
  | string leaf =>
    simp [operand, Expr.decode?, Written.isSome_string_iff, tokens]
  | truth b leaf =>
    simp [operand, Expr.decode?, Written.value, Except.toOption, tokens, Token.decodes_of_ne]
  | name leaf => simp [operand, Expr.decode?, tokens, Token.decodes_of_ne]
  | member owner dot field => simp [operand, Expr.decode?, tokens, Token.decodes_of_ne]
  | bracket opening inner closing ih =>
    simp [operand, Operand.bracket, ih, tokens, Token.decodes_of_ne, or_imp, forall_and]

theorem StatementTree.isSome_decode?_iff (st : StatementTree) :
    st.statement.decode?.isSome = true ↔ ∀ t ∈ st.tokens, t.Decodes := by
  cases st with
  | val keyword name assign value =>
    simp [statement, Statement.decode?, value.isSome_decode?_iff, tokens, Token.decodes_of_ne]
  | print keyword opening value closing =>
    simp [statement, Statement.decode?, value.isSome_decode?_iff, tokens, Token.decodes_of_ne,
      or_imp, forall_and]
  | expression value =>
    simp [statement, Statement.decode?, value.isSome_decode?_iff, tokens]

theorem Part.isSome_decode?_iff (part : Part) :
    (∀ i ∈ part.item?, i.decode?.isSome = true) ↔ ∀ t ∈ part.tokens, t.Decodes := by
  cases part with
  | blank lineEnd => simp [item?, tokens, Token.decodes_of_ne]
  | annotate sign target colon name opening argument closing lineEnd =>
    simp [item?, Item.decode?, isSome_toOption_iff, tokens, Token.decodes_of_ne]
  | line st lineEnd | segment st semicolon =>
    simp [item?, Item.decode?, st.isSome_decode?_iff, tokens, Token.decodes_of_ne, or_imp,
      forall_and]

/-- A derivation determines a script exactly if all its tokens have values. -/
theorem ScriptTree.isSome_program?_iff (file : String) (script : ScriptTree) :
    (script.program? file).isSome = true ↔ ∀ t ∈ script.tokens, t.Decodes := by
  have hparts : (∀ i ∈ script.items, i.decode?.isSome = true) ↔
      ∀ part ∈ script, ∀ i ∈ part.item?, i.decode?.isSome = true := by
    simp only [items, List.mem_filterMap, Option.mem_def]
    grind
  rw [program?, Option.isSome_map, isSome_mapM_iff, hparts, tokens]
  simp only [List.mem_flatMap, Part.isSome_decode?_iff]
  grind

/-- A derivation is one of a text if its tokens are those that the text is cut into, a line end
being added to a text that does not end in one. -/
def ScriptTree.IsOf (script : ScriptTree) (text : String) : Prop :=
  Lexes [] .first (withLineEnd text.toList) script.tokens

/-- The literals of a derivation are worked out to the script that it determines; without a file
name only a derivation without items has a script. -/
theorem ScriptTree.settle_eq_ok_iff {file : String} {script : ScriptTree} {p : Program} :
    (∃ settled, script.items.mapM (Item.settle file) = .ok settled ∧ .ofItems file settled = p) ↔
      (file = "" → script.items = []) ∧ script.program? file = some p := by
  by_cases hfile : file = ""
  · subst hfile
    cases hitems : script.items with
    | nil => simp [program?, hitems, pure, Except.pure]
    | cons i items =>
      simp only [List.mapM_cons, forall_const, reduceCtorEq, false_and, iff_false]
      rintro ⟨settled, hsettle, -⟩
      obtain ⟨i', hi, -⟩ := bind_eq_ok hsettle
      exact i.settle_unnamed_ne_ok i' hi
  · have hsettle : (fun i => (Item.settle file i).toOption) = Item.decode? :=
      funext (Item.toOption_settle hfile)
    have hdecode := toOption_mapM (Item.settle file) script.items
    rw [hsettle] at hdecode
    simp only [hfile, false_implies, true_and, program?, Option.map_eq_some_iff, ← hdecode,
      toOption_eq_some_iff]

/-- A text is accepted exactly if it has a derivation that determines a script. -/
theorem parse_eq_ok_iff {file text : String} {p : Program} : parse file text = .ok p ↔
    ∃ script : ScriptTree, script.IsOf text ∧ (file = "" → script.items = []) ∧
      script.program? file = some p := by
  simp only [← ScriptTree.settle_eq_ok_iff]
  unfold parse
  cases hread : readItems .lineStart .first (withLineEnd text.toList) with
  | error fault =>
    refine iff_of_false (by simp) ?_
    rintro ⟨script, hscript, -⟩
    simpa [hread] using readItems_eq_ok_iff.2 ⟨script, hscript, rfl⟩
  | ok items =>
    obtain ⟨script, hscript, rfl⟩ := readItems_eq_ok_iff.1 hread
    have hunique : ∀ script' : ScriptTree, script'.IsOf text → script' = script :=
      fun script' h => ScriptTree.eq_of_tokens_eq (Lexes.unique h hscript)
    constructor
    · intro h
      cases hsettle : script.items.mapM (Item.settle file) with
      | error fault => simp [hsettle] at h
      | ok settled => exact ⟨script, hscript, settled, hsettle, by simpa [hsettle] using h⟩
    · rintro ⟨script', hscript', settled, hsettle, rfl⟩
      obtain rfl := hunique script' hscript'
      simp [hsettle]

theorem exists_parse_eq_ok_iff {file text : String} : (∃ p, parse file text = .ok p) ↔
    ∃ script : ScriptTree, script.IsOf text ∧ (∀ t ∈ script.tokens, t.Decodes) ∧
      (file = "" → script.items = []) := by
  simp only [parse_eq_ok_iff, ← ScriptTree.isSome_program?_iff file, Option.isSome_iff_exists]
  grind

/-- A text is cut into tokens in at most one way, and tokens have at most one derivation. A text is
accepted exactly if its tokens have a derivation and all have values, and then it denotes the script
that the derivation determines; any other text is a parse error. Without a file name nothing can be
placed, so that only a text without items is accepted. -/
theorem parse_iff_derivation (file text : String) :
    (∀ tokens tokens', Lexes [] .first (withLineEnd text.toList) tokens →
      Lexes [] .first (withLineEnd text.toList) tokens' → tokens = tokens') ∧
    (∀ script script' : ScriptTree, script.tokens = script'.tokens → script = script') ∧
    ((∃ p, parse file text = .ok p) ↔ ∃ script : ScriptTree, script.IsOf text ∧
      (∀ t ∈ script.tokens, t.Decodes) ∧ (file = "" → script.items = [])) ∧
    (∀ (script : ScriptTree) p, script.IsOf text → parse file text = .ok p →
      script.program? file = some p) ∧
    ((∃ e : ParseError, parse file text = .error e) ↔ ¬∃ script : ScriptTree, script.IsOf text ∧
      (∀ t ∈ script.tokens, t.Decodes) ∧ (file = "" → script.items = [])) := by
  refine ⟨fun _ _ => Lexes.unique, fun _ _ => ScriptTree.eq_of_tokens_eq, exists_parse_eq_ok_iff,
    ?_, ?_⟩
  · intro script p hscript hp
    obtain ⟨script', hscript', -, hprogram⟩ := parse_eq_ok_iff.1 hp
    rwa [ScriptTree.eq_of_tokens_eq (Lexes.unique hscript hscript')]
  · rw [← exists_parse_eq_ok_iff]
    cases parse file text <;> simp

end ScriptRunner.Script
