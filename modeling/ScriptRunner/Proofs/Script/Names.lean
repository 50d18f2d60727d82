import ScriptRunner.Proofs.Outcomes
import ScriptRunner.Script.Parse

/-!
# Names in scripts

Every name that stands in a script is written as a name: it starts with a letter or an underscore,
and letters, digits and underscores follow. The machine that reads a script keeps this of all parts
of its stack.

## Main definitions

* `IsName` - a text is written as a name.
* `Expr.Names`, `Statement.Names`, `Item.Names` - all names of a tree have a property.

## Main statements

* `Phase.Names.step` - one step of the machine keeps a property that names have.
* `names_of_parse`, `names_of_parse_annotations` - the names in the statements and annotations of a
  script are written as names.
-/

namespace ScriptRunner.Script

/-- A text is written as a name. -/
def IsName (text : List Char) : Prop :=
  ∃ c cs, text = c :: cs ∧ isNameStart c = true ∧ ∀ d ∈ cs, isNameRest d = true

theorem isName_of_takeName {cs text rest : List Char} (h : takeName cs = some (text, rest)) :
    IsName text := by
  cases cs with
  | nil => simp [takeName] at h
  | cons c cs =>
    by_cases hc : isNameStart c
    · obtain ⟨rfl, -⟩ := by simpa [takeName, hc] using h
      exact ⟨c, _, rfl, hc, fun d hd => List.all_eq_true.1 List.all_takeWhile d hd⟩
    · simp [takeName, hc] at h

theorem isNameRest_of_isNameStart {c : Char} (h : isNameStart c = true) : isNameRest c = true := by
  simp only [isNameStart, Bool.or_eq_true] at h
  simp only [isNameRest, Char.isAlphanum, Bool.or_eq_true]
  exact h.imp_left .inl

theorem IsName.isNameRest {text : List Char} (h : IsName text) {c : Char} (hc : c ∈ text) :
    isNameRest c = true := by
  obtain ⟨d, ds, rfl, hd, hds⟩ := h
  rcases List.mem_cons.1 hc with rfl | hc
  · exact isNameRest_of_isNameStart hd
  · exact hds c hc

/-- A name holds only characters of names. -/
theorem IsName.not_mem {text : List Char} (h : IsName text) {c : Char}
    (hc : Script.isNameRest c = false) : c ∉ text :=
  fun hmem => Bool.false_ne_true (hc.symm.trans (h.isNameRest hmem))

variable {L : Type} (P : String → Prop)

/-- All names in an expression have a property. -/
def Expr.Names : Expr L → Prop
  | literal _ _ => True
  | name n _ => P n
  | member owner n _ => P owner ∧ P n
  | binary _ left right _ => left.Names ∧ right.Names
  | negate operand _ => operand.Names

/-- All names in a statement have a property. -/
def Statement.Names : Statement L → Prop
  | val n e _ => P n ∧ e.Names P
  | print e _ | expression e _ => e.Names P

/-- All names in an item have a property. -/
def Item.Names {A : Type} : Item L A → Prop
  | annotate target name _ _ => P target ∧ P name
  | statement s => s.Names P

/-- All names in a left operand have a property, if there is one. -/
def LeftNames : Option (Operator × Operand) → Prop
  | none => True
  | some (_, operand) => operand.expr.Names P

/-- All names in what waits have a property. -/
structure Pending.Names (p : Pending) : Prop where
  comparison : LeftNames P p.comparison
  sum : LeftNames P p.sum
  product : LeftNames P p.product

/-- All names in a growing expression have a property. -/
structure Context.Names (ctx : Context) : Prop where
  opening : ∀ start name, ctx.opening = .val start name → P name
  brackets : ∀ b ∈ ctx.brackets, b.1.Names P
  pending : ctx.pending.Names P

/-- All names in what has been read of a line have a property. -/
def Phase.Names : Phase → Prop
  | lineStart | annotationSign _ | valKeyword _ | printKeyword _ => True
  | annotationTarget _ target | annotationColon _ target => P target
  | annotationName _ target name | annotationOpen _ target name
  | annotationArgument _ target name _ => P target ∧ P name
  | annotationEnd item | printEnd item => item.Names P
  | valName _ name => P name
  | beforeOperand ctx => ctx.Names P
  | nameEnd ctx name _ | ownerDot ctx name _ => ctx.Names P ∧ P name
  | operandEnd ctx operand => ctx.Names P ∧ operand.expr.Names P

variable {P}

theorem Pending.names_empty : Pending.Names P {} :=
  ⟨trivial, trivial, trivial⟩

theorem Operand.names_behind {w : Option (Operator × Operand)} {operand : Operand}
    (hw : LeftNames P w) (ho : operand.expr.Names P) : (behind w operand).expr.Names P := by
  cases w with
  | none => exact ho
  | some x => exact ⟨hw, ho⟩

theorem Pending.names_signed (p : Pending) {operand : Operand} (ho : operand.expr.Names P) :
    (p.signed operand).expr.Names P := by
  unfold signed
  induction p.minuses generalizing operand with
  | nil => exact ho
  | cons start minuses ih =>
    have hnegate : (operand.negate start).expr.Names P := ho
    exact ih hnegate

namespace Pending.Names

variable {p : Pending} {operand : Operand}

theorem productWith (hp : p.Names P) (ho : operand.expr.Names P) :
    (p.productWith operand).expr.Names P :=
  Operand.names_behind hp.product (p.names_signed ho)

theorem sumWith (hp : p.Names P) (ho : operand.expr.Names P) :
    (p.sumWith operand).expr.Names P :=
  Operand.names_behind hp.sum (hp.productWith ho)

theorem whole (hp : p.Names P) (ho : operand.expr.Names P) : (p.whole operand).expr.Names P :=
  Operand.names_behind hp.comparison (hp.sumWith ho)

theorem extend (hp : p.Names P) (ho : operand.expr.Names P) {op : Operator} {next : Pending}
    (h : p.extend operand op = some next) : next.Names P := by
  unfold Pending.extend at h
  split at h
  · obtain rfl := Option.some.inj h
    exact ⟨hp.comparison, hp.sum, hp.productWith ho⟩
  · obtain rfl := Option.some.inj h
    exact ⟨hp.comparison, hp.sumWith ho, trivial⟩
  · split at h
    · obtain rfl := Option.some.inj h
      exact ⟨hp.sumWith ho, trivial, trivial⟩
    · simp at h

end Pending.Names

variable {ctx : Context} {operand : Operand} {t : Token}

theorem Context.Names.withPending (hctx : ctx.Names P) {pending : Pending}
    (hp : pending.Names P) : Context.Names P { ctx with pending := pending } :=
  ⟨hctx.opening, hctx.brackets, hp⟩

theorem names_startOperand (hctx : ctx.Names P) (ht : t.terminal = .name → P (Phase.nameOf t))
    {next : Phase} (h : Phase.startOperand ctx t = some next) : next.Names P := by
  unfold Phase.startOperand at h
  split at h
  · obtain rfl := Option.some.inj h
    exact ⟨hctx, trivial⟩
  · obtain rfl := Option.some.inj h
    exact ⟨hctx, trivial⟩
  · obtain rfl := Option.some.inj h
    exact ⟨hctx, trivial⟩
  · obtain rfl := Option.some.inj h
    exact ⟨hctx, ht ‹_›⟩
  · obtain rfl := Option.some.inj h
    exact hctx.withPending ⟨hctx.pending.comparison, hctx.pending.sum, hctx.pending.product⟩
  · obtain rfl := Option.some.inj h
    refine ⟨hctx.opening, fun b hb => ?_, Pending.names_empty⟩
    rcases List.mem_cons.1 hb with rfl | hb
    · exact hctx.pending
    · exact hctx.brackets b hb
  · simp at h

theorem names_statementOf (hctx : ctx.Names P) (ho : operand.expr.Names P)
    {st : Statement Written} (h : Phase.statementOf ctx.opening operand = some st) :
    st.Names P := by
  cases hopening : ctx.opening with
  | expression =>
    rw [hopening] at h
    obtain rfl := Option.some.inj h
    exact ho
  | val start name =>
    rw [hopening] at h
    obtain rfl := Option.some.inj h
    exact ⟨hctx.opening start name hopening, ho⟩
  | print start => simp [hopening, Phase.statementOf] at h

theorem names_closeBracket (hctx : ctx.Names P) (ho : operand.expr.Names P) {next : Phase}
    (h : Phase.closeBracket ctx operand t = some next) : next.Names P := by
  have hinner := hctx.pending.whole ho
  unfold Phase.closeBracket at h
  cases hbrackets : ctx.brackets with
  | cons outer brackets =>
    rw [hbrackets] at h
    obtain rfl := Option.some.inj h
    -- The expression around the bracket goes on where it was left.
    have houter : ∀ b ∈ outer :: brackets, b.1.Names P := hbrackets ▸ hctx.brackets
    exact ⟨⟨hctx.opening, fun b hb => houter b (List.mem_cons_of_mem _ hb),
      houter _ List.mem_cons_self⟩, hinner⟩
  | nil =>
    rw [hbrackets] at h
    cases hopening : ctx.opening with
    | print start =>
      rw [hopening] at h
      obtain rfl := Option.some.inj h
      exact hinner
    | _ => simp [hopening] at h

theorem names_afterOperand (hctx : ctx.Names P) (ho : operand.expr.Names P) {next : Phase}
    {item : Option WrittenItem} (h : Phase.afterOperand ctx operand t = some (next, item)) :
    next.Names P ∧ ∀ i ∈ item, i.Names P := by
  unfold Phase.afterOperand at h
  split at h
  · split at h
    next pending hpending =>
      obtain ⟨rfl, rfl⟩ := by simpa using h
      exact ⟨hctx.withPending (hctx.pending.extend ho hpending), by simp⟩
    · simp at h
  · obtain ⟨phase, hclose, heq⟩ := Option.map_eq_some_iff.1 h
    obtain ⟨rfl, rfl⟩ := by simpa using heq
    exact ⟨names_closeBracket hctx ho hclose, by simp⟩
  · split at h
    next statement _ hstatement =>
      obtain ⟨rfl, rfl⟩ := by simpa using h
      refine ⟨trivial, fun i hi => ?_⟩
      obtain rfl := Option.some.inj hi
      exact names_statementOf hctx (hctx.pending.whole ho) hstatement
    · simp at h
  · split at h
    next statement _ hstatement =>
      obtain ⟨rfl, rfl⟩ := by simpa using h
      refine ⟨trivial, fun i hi => ?_⟩
      obtain rfl := Option.some.inj hi
      exact names_statementOf hctx (hctx.pending.whole ho) hstatement
    · simp at h
  · simp at h

theorem Context.names_start {opening : Opening}
    (h : ∀ start name, opening = .val start name → P name) :
    Context.Names P { opening := opening } :=
  ⟨h, by simp, Pending.names_empty⟩

/-- A step keeps a property of all names if the name that is read has it. -/
theorem Phase.Names.step {phase next : Phase} {item : Option WrittenItem} (hphase : phase.Names P)
    (ht : t.terminal = .name → P (Phase.nameOf t)) (h : phase.step t = some (next, item)) :
    next.Names P ∧ ∀ i ∈ item, i.Names P := by
  have hmove : ∀ {other : Phase}, some (other, none) = some (next, item) → other.Names P →
      next.Names P ∧ ∀ i ∈ item, i.Names P := by
    intro other heq hother
    obtain ⟨rfl, rfl⟩ := Prod.mk.inj (Option.some.inj heq)
    exact ⟨hother, by simp⟩
  have hdone : ∀ {i : WrittenItem}, some (lineStart, some i) = some (next, item) → i.Names P →
      next.Names P ∧ ∀ i ∈ item, i.Names P := by
    intro i heq hi
    obtain ⟨rfl, rfl⟩ := Prod.mk.inj (Option.some.inj heq)
    refine ⟨trivial, fun j hj => ?_⟩
    obtain rfl := Option.some.inj hj
    exact hi
  have hoperand : ∀ {ctx : Context}, ctx.Names P →
      (startOperand ctx t).map (·, none) = some (next, item) →
      next.Names P ∧ ∀ i ∈ item, i.Names P := by
    intro ctx hctx hstart
    obtain ⟨other, hother, heq⟩ := Option.map_eq_some_iff.1 hstart
    exact hmove (congrArg some heq) (names_startOperand hctx ht hother)
  unfold Phase.step at h
  split at h
  -- The start of a line.
  · exact hmove h trivial
  · exact hmove h trivial
  · exact hmove h trivial
  · exact hmove h trivial
  · exact hoperand (Context.names_start (by simp)) h
  -- An annotation.
  · exact hmove h (ht ‹t.terminal = .name›)
  · exact hmove h hphase
  · exact hmove h ⟨hphase, ht ‹t.terminal = .name›⟩
  · exact hmove h hphase
  · exact hmove h hphase
  · exact hmove h hphase
  · exact hdone h hphase
  -- The start of a statement.
  · exact hmove h (ht ‹t.terminal = .name›)
  next start name _ =>
    refine hmove h (Context.names_start ?_)
    rintro _ _ ⟨⟩
    exact hphase
  · exact hmove h (Context.names_start (by simp))
  -- An expression.
  · exact hoperand hphase h
  · exact hmove h hphase
  · refine names_afterOperand hphase.1 ?_ h
    exact hphase.2
  · exact hmove h ⟨hphase.1, hphase.2, ht ‹t.terminal = .name›⟩
  · exact names_afterOperand hphase.1 hphase.2 h
  -- The end of a print statement.
  · exact hdone h hphase
  · exact hdone h hphase
  · simp at h

theorem scan_eq_token_match {allowed : Terminal → Bool} {cs text rest : List Char}
    {terminal : Terminal} (h : scan allowed cs = .token terminal text rest) :
    terminal.match? cs = some (text, rest) := by
  unfold scan at h
  split at h
  next t' text' rest' hmatch =>
    obtain ⟨rfl, rfl, rfl⟩ := by simpa using h
    exact (firstMatch_eq_some hmatch).2
  next => split at h <;> simp at h

/-- The text of a name is written as a name. -/
def WrittenAsName (name : String) : Prop := IsName name.toList

theorem writtenAsName_of_token {allowed : Terminal → Bool} {cs text rest : List Char}
    {terminal : Terminal} (h : scan allowed cs = .token terminal text rest) (span : Span)
    (hname : terminal = .name) : WrittenAsName (Phase.nameOf ⟨terminal, text, span⟩) := by
  have hmatch := scan_eq_token_match h
  rw [hname] at hmatch
  rw [WrittenAsName, Phase.nameOf, String.toList_ofList]
  exact isName_of_takeName hmatch

/-- All names in the items of a text are written as names. -/
theorem names_of_readItems {phase : Phase} {position : Position} {cs : List Char}
    (hphase : phase.Names WrittenAsName) {items : List WrittenItem}
    (h : readItems phase position cs = .ok items) : ∀ i ∈ items, i.Names WrittenAsName := by
  fun_induction readItems phase position cs generalizing items with
  | case1 =>
    rename_i here terminal text rest hscan there next item hstep items' hrest ih
    obtain ⟨hnext, hitem⟩ := hphase.step (writtenAsName_of_token hscan ⟨here, there⟩) hstep
    obtain rfl := Except.ok.inj h
    intro i hi
    rcases List.mem_append.1 hi with hi | hi
    · exact hitem i (Option.mem_toList.1 hi)
    · exact ih hnext hrest i hi
  | case6 =>
    obtain rfl := Except.ok.inj h
    simp
  | _ => simp at h

theorem mem_statementsOf {A : Type} {items : List (Item L A)} {st : Statement L}
    (h : st ∈ statementsOf items) : .statement st ∈ items := by
  induction items with
  | nil => simp [statementsOf] at h
  | cons i items ih =>
    cases i with
    | annotate target name argument span => exact List.mem_cons_of_mem _ (ih h)
    | statement st' =>
      rcases List.mem_cons.1 h with rfl | h
      · exact List.mem_cons_self
      · exact List.mem_cons_of_mem _ (ih h)

/-- An annotation of a script comes from an item with the same names. -/
theorem names_of_mem_annotationsOf {P : String → Prop} {inHeader : Bool}
    {items : List (Item L ScriptText)} (h : ∀ i ∈ items, i.Names P) {a : Annotation}
    (ha : a ∈ annotationsOf inHeader items) : P a.target ∧ P a.name := by
  induction items generalizing inHeader with
  | nil => simp [annotationsOf] at ha
  | cons i items ih =>
    obtain ⟨hi, hitems⟩ := List.forall_mem_cons.1 h
    cases i with
    | annotate target name argument span =>
      rcases List.mem_cons.1 ha with rfl | ha
      · exact hi
      · exact ih hitems ha
    | statement st => exact ih hitems ha

variable [CharacterNames]

/-- Working out the literals of an expression leaves its names as they are. -/
theorem Expr.names_settle {file : String} {e : Expr Written} {e' : Expr Value}
    (h : e.settle file = .ok e') (he : e.Names P) : e'.Names P := by
  induction e generalizing e' with
  | literal w span =>
    obtain ⟨v, -, h⟩ := bind_eq_ok h
    obtain rfl := Except.ok.inj h
    trivial
  | name n span =>
    obtain rfl := Except.ok.inj h
    exact he
  | member owner n span =>
    obtain ⟨-, -, h⟩ := bind_eq_ok h
    obtain rfl := Except.ok.inj h
    exact he
  | binary op left right span ihLeft ihRight =>
    obtain ⟨left', hleft, h⟩ := bind_eq_ok h
    obtain ⟨right', hright, h⟩ := bind_eq_ok h
    obtain ⟨-, -, h⟩ := bind_eq_ok h
    obtain rfl := Except.ok.inj h
    exact ⟨ihLeft hleft he.1, ihRight hright he.2⟩
  | negate operand span ih =>
    obtain ⟨operand', hoperand, h⟩ := bind_eq_ok h
    obtain ⟨-, -, h⟩ := bind_eq_ok h
    obtain rfl := Except.ok.inj h
    have hnames := ih hoperand he
    exact hnames

theorem Statement.names_settle {file : String} {st : Statement Written} {st' : Statement Value}
    (h : st.settle file = .ok st') (hst : st.Names P) : st'.Names P := by
  cases st with
  | val name e span =>
    obtain ⟨e', he, h⟩ := bind_eq_ok h
    obtain ⟨-, -, h⟩ := bind_eq_ok h
    obtain rfl := Except.ok.inj h
    exact ⟨hst.1, Expr.names_settle he hst.2⟩
  | print e span | expression e span =>
    obtain ⟨e', he, h⟩ := bind_eq_ok h
    obtain ⟨-, -, h⟩ := bind_eq_ok h
    obtain rfl := Except.ok.inj h
    exact Expr.names_settle he hst

theorem Item.names_settle {file : String} {i : WrittenItem} {i' : Item Value ScriptText}
    (h : i.settle file = .ok i') (hi : i.Names P) : i'.Names P := by
  cases i with
  | annotate target name argument span =>
    obtain ⟨argument', -, h⟩ := bind_eq_ok h
    obtain ⟨-, -, h⟩ := bind_eq_ok h
    obtain rfl := Except.ok.inj h
    exact hi
  | statement st =>
    obtain ⟨st', hst, h⟩ := bind_eq_ok h
    obtain rfl := Except.ok.inj h
    exact Statement.names_settle hst hi

/-- A script is made of items whose names are all written as names. -/
theorem exists_items_names_of_parse {file text : String} {p : Program}
    (h : parse file text = .ok p) : ∃ items : List (Item Value ScriptText),
      p = .ofItems file items ∧ ∀ i ∈ items, i.Names WrittenAsName := by
  unfold parse at h
  split at h
  · simp at h
  next written hread =>
  split at h
  · simp at h
  next items hsettle =>
  refine ⟨items, (Except.ok.inj h).symm, fun i' hi' => ?_⟩
  obtain ⟨i, hi, hi'⟩ := exists_of_forall₂_right (mapM_eq_ok_iff.1 hsettle) hi'
  have hstart : Phase.Names WrittenAsName .lineStart := trivial
  exact Item.names_settle hi' (names_of_readItems hstart hread i hi)

/-- The names in the statements of a script are written as names. -/
theorem names_of_parse {file text : String} {p : Program} (h : parse file text = .ok p) :
    ∀ st ∈ p.statements, st.Names WrittenAsName := by
  obtain ⟨items, rfl, hitems⟩ := exists_items_names_of_parse h
  intro st hst
  exact hitems _ (mem_statementsOf hst)

/-- So are those in its annotations. -/
theorem names_of_parse_annotations {file text : String} {p : Program}
    (h : parse file text = .ok p) :
    ∀ a ∈ p.annotations, WrittenAsName a.target ∧ WrittenAsName a.name := by
  obtain ⟨items, rfl, hitems⟩ := exists_items_names_of_parse h
  intro a ha
  exact names_of_mem_annotationsOf hitems ha

end ScriptRunner.Script
