import ScriptRunner.Proofs.Script.Concatenation
import ScriptRunner.Proofs.Script.Excerpts

/-!
# Expressions that are read by themselves

The text that an expression takes up is read to the same expression behind `val v =`. From the place
on where the expression stands in its script, what is allowed at each of its tokens tells the tokens
apart at least as well as it does in the declaration. So the text is cut into the same tokens there;
and where tokens stand decides about places only.

## Main definitions

* `Expr.unplaced`, `Phase.unplaced` - without any places.
* `Phase.Leads` - the machine takes tokens and completes no item.
* `Phase.Akin` - a phase inside an expression, and one inside the expression of a declaration.
* `Expr.ReadsBack` - the text of an expression is read to it.

## Main statements

* `Phase.Akin.allows_of_kind`, `Phase.Akin.step` - akin phases tell the same tokens apart, and lead
  to akin phases.
* `Lexes.read_elsewhere` - tokens are read in another place.
* `readsBack_of_parse` - the places of a script delimit what they name.
-/

namespace ScriptRunner.Script

section

variable {L A : Type}

/-- An expression without its places. -/
def Expr.unplaced (e : Expr L) : Expr L :=
  e.relocate fun _ => .first

def Item.unplaced (i : Item L A) : Item L A :=
  i.relocate fun _ => .first

end

def Phase.unplaced (phase : Phase) : Phase :=
  phase.relocate fun _ => .first

/-- Where tokens stand decides about places only. -/
theorem Phase.step_of_unplaced {phase phase' next : Phase} {t t' : Token}
    {item : Option WrittenItem} (h : phase.unplaced = phase'.unplaced)
    (hterminal : t.terminal = t'.terminal) (htext : t.text = t'.text)
    (hstep : phase.step t = some (next, item)) :
    ∃ next' item', phase'.step t' = some (next', item') ∧ next.unplaced = next'.unplaced ∧
      item.map Item.unplaced = item'.map Item.unplaced := by
  have ht : t.relocate (fun _ => .first) = t'.relocate (fun _ => .first) := by
    obtain ⟨terminal, text, span⟩ := t
    obtain ⟨terminal', text', span'⟩ := t'
    obtain rfl : terminal = terminal' := hterminal
    obtain rfl : text = text' := htext
    rfl
  have hstep' := step_relocate (fun _ => .first) t' phase'
  rw [← ht, ← unplaced, ← h, unplaced, step_relocate, hstep, Option.map_some] at hstep'
  obtain ⟨⟨next', item'⟩, hnext, heq⟩ := Option.map_eq_some_iff.1 hstep'.symm
  obtain ⟨hphase, hitem⟩ := Prod.mk.inj heq
  exact ⟨next', item', hnext, hphase.symm, hitem.symm⟩

/-- The machine takes tokens from one phase to another and completes no item. -/
inductive Phase.Leads : Phase → List Token → Phase → Prop
  | nil {phase : Phase} : Leads phase [] phase
  | cons {phase mid next : Phase} {t : Token} {ts : List Token}
    (hstep : phase.step t = some (mid, none)) (hleads : Leads mid ts next) :
    Leads phase (t :: ts) next

/-- A run only adds parts. -/
theorem Draft.prefix_of_run {d next : Draft} {ts : List Token} (h : d.run ts = some next) :
    d.parts <+: next.parts := by
  induction ts generalizing d with
  | nil =>
    obtain rfl := Option.some.inj h
    exact List.prefix_rfl
  | cons t ts ih =>
    obtain ⟨mid, hstep, hrun⟩ := exists_step_of_cons h
    obtain ⟨⟨line, part⟩, -, rfl⟩ := Option.map_eq_some_iff.1 hstep
    exact (List.prefix_append _ _).trans (ih hrun)

/-- The machine without derivations takes the same tokens. -/
theorem Line.Leads.phase {line next : Line} {ts : List Token} (h : line.Leads ts next) :
    line.phase.Leads ts next.phase := by
  induction ts generalizing line with
  | nil =>
    obtain ⟨-, rfl⟩ := Draft.mk.inj (Option.some.inj (h []))
    exact .nil
  | cons t ts ih =>
    obtain ⟨mid, hstep, hrun⟩ := Draft.exists_step_of_cons (h [])
    obtain ⟨⟨line', part⟩, hline, rfl⟩ := Option.map_eq_some_iff.1 hstep
    -- A part that were complete would stay.
    obtain rfl : part = none := by
      have hparts := Draft.prefix_of_run hrun
      cases part with
      | none => rfl
      | some part => simp at hparts
    have hphase := Line.step_phase line t
    rw [hline, Option.map_some] at hphase
    refine .cons hphase (ih fun parts => ?_)
    obtain ⟨mid, hstep, hrun⟩ := Draft.exists_step_of_cons (h parts)
    rw [Draft.step, hline, Option.map_some] at hstep
    obtain rfl := Option.some.inj hstep
    simpa using hrun

/-- A growing expression of a declaration has no more open brackets than another one. -/
structure Context.Under (ctx' ctx : Context) : Prop where
  opening : ∃ start name, ctx'.opening = .val start name
  brackets : ctx'.brackets.length ≤ ctx.brackets.length

/-- A phase inside an expression, and one inside the same expression where that is the expression of
a declaration. -/
inductive Phase.Akin : Phase → Phase → Prop
  | lineStart {ctx' : Context} (h : ctx'.Under { opening := .expression }) :
    Akin .lineStart (.beforeOperand ctx')
  | beforeOperand {ctx ctx' : Context} (h : ctx'.Under ctx) :
    Akin (.beforeOperand ctx) (.beforeOperand ctx')
  | nameEnd {ctx ctx' : Context} {name name' : String} {span span' : Span} (h : ctx'.Under ctx) :
    Akin (.nameEnd ctx name span) (.nameEnd ctx' name' span')
  | ownerDot {ctx ctx' : Context} {owner owner' : String} {span span' : Span}
    (h : ctx'.Under ctx) : Akin (.ownerDot ctx owner span) (.ownerDot ctx' owner' span')
  | operandEnd {ctx ctx' : Context} {operand operand' : Operand} (h : ctx'.Under ctx) :
    Akin (.operandEnd ctx operand) (.operandEnd ctx' operand')

namespace Phase

theorem akin_startOperand {ctx ctx' : Context} (h : ctx'.Under ctx) {t t' : Token}
    {next next' : Phase} (hterminal : t.terminal = t'.terminal)
    (hnext : startOperand ctx t = some next) (hnext' : startOperand ctx' t' = some next') :
    next.Akin next' := by
  unfold startOperand at hnext hnext'
  rw [← hterminal] at hnext'
  split at hnext
  case h_7 => simp at hnext
  all_goals
    rename_i ht
    simp only [ht, Option.some.injEq] at hnext hnext'
    subst hnext hnext'
  case h_4 => exact .nameEnd h
  case h_5 => exact .beforeOperand ⟨h.opening, h.brackets⟩
  case h_6 => exact .beforeOperand ⟨h.opening, Nat.succ_le_succ h.brackets⟩
  all_goals exact .operandEnd h

theorem akin_closeBracket {ctx ctx' : Context} (h : ctx'.Under ctx) {operand operand' : Operand}
    {t t' : Token} {next next' : Phase} (hnext : closeBracket ctx operand t = some next)
    (hnext' : closeBracket ctx' operand' t' = some next') : next.Akin next' := by
  obtain ⟨opening, brackets, pending⟩ := ctx
  obtain ⟨opening', brackets', pending'⟩ := ctx'
  obtain ⟨⟨start, name, rfl⟩, hbrackets⟩ := h
  cases brackets' with
  | nil => simp [closeBracket] at hnext'
  | cons bracket' brackets' =>
    cases brackets with
    | nil => simp at hbrackets
    | cons bracket brackets =>
      obtain rfl := Option.some.inj hnext
      obtain rfl := Option.some.inj hnext'
      exact .operandEnd ⟨⟨start, name, rfl⟩, Nat.le_of_succ_le_succ hbrackets⟩

theorem akin_afterOperand {ctx ctx' : Context} (h : ctx'.Under ctx) {operand operand' : Operand}
    {t t' : Token} {next next' : Phase} {item : Option WrittenItem}
    (hterminal : t.terminal = t'.terminal)
    (hnext : afterOperand ctx operand t = some (next, item))
    (hnext' : afterOperand ctx' operand' t' = some (next', none)) : next.Akin next' := by
  unfold afterOperand at hnext hnext'
  rw [← hterminal] at hnext'
  split at hnext
  next op ht =>
    simp only [ht] at hnext'
    split at hnext
    · split at hnext'
      · obtain ⟨rfl, -⟩ := Prod.mk.inj (Option.some.inj hnext)
        obtain ⟨rfl, -⟩ := Prod.mk.inj (Option.some.inj hnext')
        exact .beforeOperand ⟨h.opening, h.brackets⟩
      · simp at hnext'
    · simp at hnext
  next ht =>
    simp only [ht] at hnext'
    obtain ⟨phase, hclose, heq⟩ := Option.map_eq_some_iff.1 hnext
    obtain ⟨phase', hclose', heq'⟩ := Option.map_eq_some_iff.1 hnext'
    obtain ⟨rfl, -⟩ := Prod.mk.inj heq
    obtain ⟨rfl, -⟩ := Prod.mk.inj heq'
    exact akin_closeBracket h hclose hclose'
  next ht =>
    -- A line end would complete an item.
    simp only [ht] at hnext'
    split at hnext' <;> simp at hnext'
  next ht =>
    simp only [ht] at hnext'
    split at hnext' <;> simp at hnext'
  · simp at hnext

/-- A line may start with an operand. -/
theorem step_lineStart {ctx : Context} {t t' : Token} {next : Phase}
    (hterminal : t.terminal = t'.terminal) (h : startOperand ctx t' = some next) :
    lineStart.step t = (startOperand { opening := .expression } t).map (·, none) := by
  obtain ⟨terminal, text, span⟩ := t
  obtain ⟨terminal', text', span'⟩ := t'
  obtain rfl : terminal = terminal' := hterminal
  rcases terminal with _ | m | o | k | _ | _ | _
  case lineEnd => simp [startOperand] at h
  case mark => cases m <;> first | rfl | simp [startOperand] at h
  case keyword => cases k <;> first | rfl | simp [startOperand] at h
  all_goals rfl

/-- A token leads from akin phases to akin phases. -/
theorem Akin.step {phase phase' next next' : Phase} {t t' : Token} {item : Option WrittenItem}
    (h : phase.Akin phase') (hterminal : t.terminal = t'.terminal)
    (hnext : phase.step t = some (next, item)) (hnext' : phase'.step t' = some (next', none)) :
    next.Akin next' := by
  have hstart : ∀ {ctx ctx' : Context}, ctx'.Under ctx →
      (startOperand ctx t).map (·, none) = some (next, item) →
      (startOperand ctx' t').map (·, none) = some (next', (none : Option WrittenItem)) →
      next.Akin next' := by
    intro ctx ctx' h hnext hnext'
    obtain ⟨phase, hstart, heq⟩ := Option.map_eq_some_iff.1 hnext
    obtain ⟨phase', hstart', heq'⟩ := Option.map_eq_some_iff.1 hnext'
    obtain ⟨rfl, -⟩ := Prod.mk.inj heq
    obtain ⟨rfl, -⟩ := Prod.mk.inj heq'
    exact akin_startOperand h hterminal hstart hstart'
  cases h with
  | lineStart h =>
    obtain ⟨phase', hphase', -⟩ := Option.map_eq_some_iff.1 hnext'
    rw [step_lineStart hterminal hphase'] at hnext
    exact hstart h hnext hnext'
  | beforeOperand h => exact hstart h hnext hnext'
  | nameEnd h =>
    by_cases hdot : t.terminal = .mark .dot
    · simp only [Phase.step, hdot, ← hterminal, Option.some.injEq, Prod.mk.injEq] at hnext hnext'
      obtain ⟨rfl, -⟩ := hnext
      obtain ⟨rfl, -⟩ := hnext'
      exact .ownerDot h
    · rw [step_nameEnd _ _ _ hdot] at hnext
      rw [step_nameEnd _ _ _ (hterminal ▸ hdot)] at hnext'
      exact akin_afterOperand h hterminal hnext hnext'
  | ownerDot h =>
    by_cases hname : t.terminal = .name
    · simp only [Phase.step, hname, ← hterminal, Option.some.injEq, Prod.mk.injEq] at hnext hnext'
      obtain ⟨rfl, -⟩ := hnext
      obtain ⟨rfl, -⟩ := hnext'
      exact .operandEnd h
    · simp [Phase.step, hname] at hnext
  | operandEnd h => exact akin_afterOperand h hterminal hnext hnext'

/-- Where an operand has ended, a comparison may stand if none waits. -/
theorem isSome_afterOperand_comparison (ctx : Context) (operand : Operand) {op : Operator}
    (h : tightness op = .comparison) (text : List Char) (span : Span) :
    (afterOperand ctx operand ⟨.operator op, text, span⟩).isSome =
      ctx.pending.comparison.isNone := by
  simp only [afterOperand, Pending.extend, h]
  cases ctx.pending.comparison <;> rfl

end Phase

/-- A terminal that may stand behind an operand. -/
def Terminal.followsOperand : Terminal → Bool
  | lineEnd | operator _ | mark .closeParen | mark .semicolon | mark .dot => true
  | _ => false

def Terminal.isComparison : Terminal → Bool
  | operator o => tightness o = .comparison
  | _ => false

/-- Of the terminals that may stand behind an operand only comparisons start alike. -/
theorem Terminal.isComparison_of_kind : ∀ t ∈ Terminal.all, t.followsOperand = true →
    ∀ u ∈ Terminal.all, u.followsOperand = true → u.kind = t.kind →
      t = u ∨ t.isComparison = true ∧ u.isComparison = true := by
  decide +kernel

namespace Phase

variable {ctx ctx' : Context} {operand operand' : Operand} {t u : Terminal}

theorem followsOperand_of_afterOperand {token : Token}
    (h : (afterOperand ctx operand token).isSome = true) :
    token.terminal.followsOperand = true := by
  obtain ⟨terminal, text, span⟩ := token
  rcases terminal with _ | m | o | k | _ | _ | _
  case mark => cases m <;> first | rfl | simp [afterOperand] at h
  all_goals first | rfl | simp [afterOperand] at h

/-- What may stand behind an operand, where what starts alike may stand there. -/
theorem isSome_afterOperand_of_kind
    (ht : (afterOperand ctx operand ⟨t, [], ⟨.first, .first⟩⟩).isSome = true)
    (hu : (afterOperand ctx' operand' ⟨u, [], ⟨.first, .first⟩⟩).isSome = true)
    (hkind : u.kind = t.kind) :
    (afterOperand ctx operand ⟨u, [], ⟨.first, .first⟩⟩).isSome = true := by
  obtain rfl | ⟨htc, huc⟩ := Terminal.isComparison_of_kind t t.mem_all
    (followsOperand_of_afterOperand ht) u u.mem_all (followsOperand_of_afterOperand hu) hkind
  · exact ht
  · cases t with
    | operator op =>
      cases u with
      | operator op' =>
        rw [isSome_afterOperand_comparison ctx operand (by simpa [Terminal.isComparison] using huc)]
        rwa [isSome_afterOperand_comparison ctx operand
          (by simpa [Terminal.isComparison] using htc)] at ht
      | _ => simp [Terminal.isComparison] at huc
    | _ => simp [Terminal.isComparison] at htc

/-- An operand may start with the same terminals everywhere. -/
theorem isSome_startOperand_of_isSome {token : Token}
    (h : (startOperand ctx' token).isSome = true) : (startOperand ctx token).isSome = true := by
  unfold startOperand at h ⊢
  split <;> simp_all

theorem allows_nameEnd (ctx : Context) (name : String) (span : Span) (hdot : t ≠ .mark .dot) :
    (nameEnd ctx name span).allows t =
      (afterOperand ctx ⟨.name name span, span⟩ ⟨t, [], ⟨.first, .first⟩⟩).isSome := by
  rw [allows, step_nameEnd]
  exact hdot

/-- What may stand in the declaration may stand in the script, where what starts alike may. -/
theorem Akin.allows_of_kind {phase phase' : Phase} (h : phase.Akin phase')
    (ht : phase.allows t = true) (hu : phase'.allows u = true) (hkind : u.kind = t.kind) :
    phase.allows u = true := by
  have hoperand : ∀ {ctx ctx' : Context}, (Phase.beforeOperand ctx').allows u = true →
      (Phase.beforeOperand ctx).allows u = true := by
    intro ctx ctx' hu
    simp only [allows, Phase.step, Option.isSome_map] at hu ⊢
    exact isSome_startOperand_of_isSome hu
  cases h with
  | lineStart h =>
    have hu : (Phase.beforeOperand { opening := .expression }).allows u = true := hoperand hu
    simp only [allows, Phase.step, Option.isSome_map] at hu
    obtain ⟨next, hnext⟩ := Option.isSome_iff_exists.1 hu
    rw [allows, step_lineStart rfl hnext, Option.isSome_map]
    exact hu
  | beforeOperand h => exact hoperand hu
  | nameEnd h =>
    by_cases hdot : t = .mark .dot
    · subst hdot
      rcases Terminal.eq_number_or_dot_of_kind u u.mem_all hkind with rfl | rfl
      · exact absurd hu (by simp [allows, Phase.step, afterOperand])
      · exact ht
    · by_cases hdot' : u = .mark .dot
      · subst hdot'
        rfl
      · rw [allows_nameEnd _ _ _ hdot] at ht
        rw [allows_nameEnd _ _ _ hdot'] at hu ⊢
        exact isSome_afterOperand_of_kind ht hu hkind
  | ownerDot h =>
    cases u with
    | name => rfl
    | _ => simp [allows, Phase.step] at hu
  | operandEnd h => exact isSome_afterOperand_of_kind ht hu hkind

end Phase

/-- Tokens that are read inside an expression are read in the same way inside the expression of a
declaration, wherever their text stands, as long as the line ends behind it. The machine is where it
would be if the tokens stood where they do in the script, but for places. -/
theorem Lexes.read_elsewhere {before tokens : List Token} {position : Position} {cs : List Char}
    (h : Lexes before position cs tokens) {d : Draft} {phase model next : Phase}
    (hbefore : Draft.start.run before = some d) (hakin : d.line.phase.Akin phase)
    (hmodel : model.unplaced = phase.unplaced) (hleads : model.Leads tokens next)
    (hends : ∀ t ∈ tokens, t.terminal ≠ .lineEnd) (place : Position) (ys : List Char) :
    ∃ next' : Phase, next.unplaced = next'.unplaced ∧
      readItems phase place (cs ++ '\n' :: ys) =
        readItems next' (place.advanceAll cs) ('\n' :: ys) := by
  induction h generalizing d phase model place with
  | done =>
    cases hleads
    exact ⟨phase, hmodel, rfl⟩
  | @skip before tokens position cs text rest l hmunch hl hrest ih =>
    obtain ⟨next', hnext, hread⟩ :=
      ih hbefore hakin hmodel hleads hends (place.advanceAll text)
    have hbetween : IsBlanks text ∨
        IsComment text ∧ ∀ c ∈ (rest ++ '\n' :: ys).head?, c = '\n' := by
      obtain rfl | rfl := hl
      · exact .inl hmunch.spells
      · refine .inr ⟨hmunch.spells, fun c hc => ?_⟩
        cases rest with
        | nil => simpa using hc.symm
        | cons d rest => exact hmunch.head_of_comment c hc
    refine ⟨next', hnext, ?_⟩
    rw [← hmunch.split, List.append_assoc, readItems_skip hbetween, hread,
      Position.advanceAll_append]
  | @token before tokens position cs text rest terminal hmunch hrest ih =>
    rw [startsWith_eq hbefore] at hmunch
    have ht : terminal ≠ .lineEnd := hends _ List.mem_cons_self
    let here : Token := ⟨terminal, text, ⟨position, position.advanceAll text⟩⟩
    let there : Token := ⟨terminal, text, ⟨place, place.advanceAll text⟩⟩
    -- The three machines take the token, each at its own place.
    obtain ⟨d', hstep, -⟩ := Draft.exists_step_of_munch hmunch position
    obtain ⟨item, hphase⟩ := Draft.step_phase hstep
    cases hleads with
    | cons hmodelStep hmodelLeads =>
      have hterminal : here.terminal = there.terminal := rfl
      have htext : here.text = there.text := rfl
      obtain ⟨phase', item', hphase', hunplaced, hitem⟩ :=
        Phase.step_of_unplaced hmodel hterminal htext hmodelStep
      obtain rfl : item' = none := by simpa using hitem.symm
      have hallows : phase.allows terminal = true := by
        rw [← Phase.isSome_step phase there, hphase', Option.isSome_some]
      obtain ⟨next', hnext, hread⟩ := ih (Draft.run_concat hbefore hstep)
        (hakin.step hterminal hphase hphase') hunplaced hmodelLeads
        (fun t ht => hends t (List.mem_cons_of_mem _ ht)) (place.advanceAll text)
      have hmunch' : Munch (phase.allows · = true) (text ++ (rest ++ '\n' :: ys)) (.token terminal)
          text (rest ++ '\n' :: ys) := by
        have hcs := hmunch
        rw [← List.append_nil rest] at hcs
        exact hcs.transfer ht hallows
          (fun u hu hkind => hakin.allows_of_kind hmunch.isAllowed hu hkind) (isBoundary_feed ys)
      refine ⟨next', hnext, ?_⟩
      rw [← hmunch.split, List.append_assoc, Position.advanceAll_append, ← hread]
      have hspells : terminal.Spells text := hmunch.spells
      obtain ⟨c, ds, rfl, hc⟩ := hspells.head
      exact readItems_token_none ht hc (hmunch'.scan_eq phase.allows_name ht) hphase'

/-- Line ends stand between statements. -/
theorem ExprTree.ne_lineEnd {l : Level} (e : ExprTree l) :
    ∀ t ∈ e.tokens, t.terminal ≠ .lineEnd := by
  induction e with
  | ofSum s ih | ofProduct s ih | ofUnary s ih | ofAtom s ih => exact ih
  | comparison left op sign right ihLeft ihRight | sum left op sign right ihLeft ihRight
  | product left op sign right ihLeft ihRight =>
    simpa [tokens, or_imp, forall_and] using And.intro ihLeft ihRight
  | negate minus operand ih => simpa [tokens, Terminal.minus] using ih
  | bracket opening inner closing ih => simpa [tokens, or_imp, forall_and] using ih
  | number | string | truth | name | member => simp [tokens]

/-- Any expression as the loosest one. -/
def ExprTree.loosen : {l : Level} → ExprTree l → ExprTree .expr
  | .expr, e => e
  | .sum, s => .ofSum s
  | .product, p => .ofSum (.ofProduct p)
  | .unary, u => .ofSum (.ofProduct (.ofUnary u))
  | .atom, a => .ofSum (.ofProduct (.ofUnary (.ofAtom a)))

@[simp] theorem ExprTree.tokens_loosen {l : Level} (e : ExprTree l) :
    e.loosen.tokens = e.tokens := by
  cases l <;> rfl

@[simp] theorem ExprTree.operand_loosen {l : Level} (e : ExprTree l) :
    e.loosen.operand = e.operand := by
  cases l <;> rfl

/-- A text whose tokens are those of an expression is one line. -/
theorem Lexes.not_mem_feed {before tokens : List Token} {position : Position} {cs : List Char}
    (h : Lexes before position cs tokens) (hends : ∀ t ∈ tokens, t.terminal ≠ .lineEnd) :
    '\n' ∉ cs := by
  induction h with
  | done => exact List.not_mem_nil
  | skip hmunch hl hrest ih =>
    have htext := hmunch.not_mem_feed (by rcases hl with rfl | rfl <;> simp)
    rw [← hmunch.split]
    exact List.not_mem_append htext (ih hends)
  | token hmunch hrest ih =>
    have hterminal := hends _ List.mem_cons_self
    have htext := hmunch.not_mem_feed (by simpa using hterminal)
    rw [← hmunch.split]
    exact List.not_mem_append htext (ih fun t ht => hends t (List.mem_cons_of_mem _ ht))

/-- The phase behind `val v =` is akin to every phase that waits for an operand. -/
theorem Phase.IsOpen.akin {phase : Phase} (h : phase.IsOpen) (start : Position) (name : String) :
    phase.Akin (.beforeOperand { opening := .val start name }) := by
  cases h with
  | lineStart => exact .lineStart ⟨⟨start, name, rfl⟩, Nat.le_refl _⟩
  | beforeOperand ctx => exact .beforeOperand ⟨⟨start, name, rfl⟩, Nat.zero_le _⟩

theorem Item.exists_val_of_unplaced {L A : Type} {i : Item L A} {name : String} {value : Expr L}
    {span : Span} (h : (Item.statement (A := A) (.val name value span)).unplaced = i.unplaced) :
    ∃ value' span', i = .statement (.val name value' span') ∧ value'.unplaced = value.unplaced := by
  cases i with
  | annotate => simp [Item.unplaced, Item.relocate] at h
  | statement st =>
    have h := Item.statement.inj h
    cases st with
    | val name' value' span' =>
      obtain ⟨rfl, hvalue, -⟩ := Statement.val.inj h
      exact ⟨value', span', rfl, hvalue.symm⟩
    | print => simp [Statement.relocate] at h
    | expression => simp [Statement.relocate] at h

/-- The text of an expression that stands somewhere in a script is read to it behind `val v =`. -/
theorem Lexes.exists_readItems_val {l : Level} {e : ExprTree l} {before : List Token}
    {position : Position} {cs : List Char} {d : Draft} (h : Lexes before position cs e.tokens)
    (hbefore : Draft.start.run before = some d) (hopen : d.line.phase.IsOpen) :
    ∃ value span, value.unplaced = e.operand.expr.unplaced ∧
      readItems .lineStart .first ("val v = ".toList ++ (cs ++ ['\n'])) =
        .ok [.statement (.val "v" value span)] := by
  let start : Position := .first
  let name : Leaf := ⟨['v'], ⟨start, start⟩⟩
  let opening : OpeningTree := .val Leaf.any name Leaf.any
  obtain ⟨pending, a, hleads, hwhole⟩ := e.loosen.isRead { opening := opening } rfl
  have hleads := hleads.phase
  rw [ExprTree.tokens_loosen] at hleads
  let place := start.advanceAll ("val ".toList ++ (['v'] ++ " = ".toList))
  obtain ⟨phase, hphase, hread⟩ :=
    h.read_elsewhere hbefore (hopen.akin start "v") rfl hleads e.ne_lineEnd place []
  -- The line end completes the declaration.
  let whole := (pending.whole a).operand
  have hend : (Line.operandEnd { opening := opening, pending := pending } a).phase.step
      (Leaf.any.as .lineEnd) = some (.lineStart,
        some (.statement (.val "v" whole.expr ⟨start, whole.extent.stop⟩))) := by
    rw [Line.step_phase, Line.step_lineEnd rfl]
    rfl
  obtain ⟨next, item, hstep, -, hitem⟩ := Phase.step_of_unplaced hphase rfl rfl hend
  obtain ⟨item, rfl, hval⟩ := Option.map_eq_some_iff.1 hitem.symm
  obtain ⟨value, span, rfl, hvalue⟩ := Item.exists_val_of_unplaced hval.symm
  refine ⟨value, span, ?_, ?_⟩
  · rw [hvalue, ← e.operand_loosen, ← hwhole]
  · have hname : IsName ['v'] := ⟨'v', [], rfl, rfl, by simp⟩
    calc readItems .lineStart .first ("val v = ".toList ++ (cs ++ ['\n']))
      _ = readItems (.beforeOperand { opening := .val start "v" }) place (cs ++ ['\n']) :=
        readItems_val hname start (cs ++ ['\n'])
      _ = readItems phase (place.advanceAll cs) ['\n'] := hread
      _ = .ok [.statement (.val "v" value span)] := by
        rw [readItems_feed hstep, readItems_nil_eq_ok_iff.2 ⟨rfl, rfl⟩]
        rfl

/-- A line end that is added to a text lies behind each of its lines. -/
theorem cut_withLineEnd {s : Span} {position : Position} {cs : List Char}
    (h : '\n' ∉ s.cut position (withLineEnd cs)) :
    s.cut position (withLineEnd cs) = s.cut position cs := by
  unfold withLineEnd at h ⊢
  split at h
  next hcs => rw [if_pos hcs]
  next hcs =>
    rw [if_neg hcs, Span.cut_append, Span.cut]
    rw [Span.cut_append, Span.cut] at h
    split at h
    · simp at h
    next hout => rw [if_neg hout, Span.cut, List.append_nil]

section

variable [CharacterNames]

/-- The text of an expression is read back: behind `val v =` it is a script that has no annotations
and one statement, which declares `v` to be the expression, wherever that stands. -/
def Expr.ReadsBack (file text : String) (e : Expr Value) : Prop :=
  ∃ p value span, parse file ("val v = " ++ .ofList (e.span.cut .first text.toList)) = .ok p ∧
    p.annotations = [] ∧ p.statements = [.val "v" value span] ∧ value.unplaced = e.unplaced

variable {file text : String}

/-- Literals have the same values everywhere. -/
theorem Expr.exists_settle_of_unplaced {e e' : Expr Written} {v : Expr Value}
    (h : e'.unplaced = e.unplaced) (hsettle : e.settle file = .ok v) :
    ∃ v', e'.settle file = .ok v' ∧ v'.unplaced = v.unplaced := by
  have hunplaced := settle_relocate (fun _ => .first) file e
  have hunplaced' := settle_relocate (fun _ => .first) file e'
  rw [← unplaced, hsettle] at hunplaced
  rw [← unplaced, h, hunplaced] at hunplaced'
  cases hv' : e'.settle file with
  | error fault => simp [hv', Except.map] at hunplaced'
  | ok v' =>
    rw [hv'] at hunplaced'
    exact ⟨v', rfl, (Except.ok.inj hunplaced').symm⟩

/-- The text of an expression that has a derivation of its own is read back. -/
theorem Occurs.readsBack {script : ScriptTree} {w : Expr Written} {e : Expr Value}
    (hw : Occurs w script.tokens) (hscript : script.IsOf text) (hfile : file ≠ "")
    (hsettle : w.settle file = .ok e) : e.ReadsBack file text := by
  obtain ⟨tree, htokens, rfl, hextent, hrun, hopen⟩ := hw
  have hspans := tree.spans_extent
  rw [hextent, ← Expr.span_settle hsettle] at hspans
  rw [ScriptTree.IsOf, htokens] at hscript
  obtain ⟨-, hlexes⟩ := hscript.exists_excerpt hspans
  rw [cut_withLineEnd (hlexes.not_mem_feed tree.ne_lineEnd)] at hlexes
  obtain ⟨value, span, hvalue, hread⟩ := hlexes.exists_readItems_val hrun hopen
  obtain ⟨value', hsettle', hunplaced⟩ := Expr.exists_settle_of_unplaced hvalue hsettle
  have hitems : [Item.statement (.val "v" value span)].mapM (Item.settle file) =
      .ok [.statement (.val "v" value' span)] := by
    simp [Item.settle, Statement.settle, hsettle', requireFile_eq_ok hfile]
    rfl
  refine ⟨.ofItems file [.statement (.val "v" value' span)], value', span,
    parse_eq_ok_iff_reads.2 ⟨_, ⟨_, ?_, hitems⟩, rfl⟩, rfl, rfl, hunplaced⟩
  have hcut : (String.ofList (e.span.cut .first text.toList)).toList =
      e.span.cut .first text.toList := String.toList_ofList
  rw [String.toList_append, hcut, List.append_assoc]
  exact hread

/-- A script comes from a derivation of its text, item by item. -/
theorem exists_items_of_parse {p : Program} (h : parse file text = .ok p) :
    ∃ (script : ScriptTree) (items : List (Item Value ScriptText)), script.IsOf text ∧
      List.Forall₂ (fun i i' => Item.settle file i = .ok i') script.items items ∧
        p = .ofItems file items := by
  obtain ⟨script, hscript, hprogram⟩ := parse_eq_ok_iff.1 h
  obtain ⟨items, hitems, rfl⟩ := ScriptTree.settle_eq_ok_iff.2 hprogram
  exact ⟨script, items, hscript, mapM_eq_ok_iff.1 hitems, rfl⟩

theorem Item.exists_statement_of_settle {i : WrittenItem} {s : Statement Value}
    (h : Item.settle file i = .ok (.statement s)) :
    ∃ st, i = .statement st ∧ st.settle file = .ok s := by
  cases i with
  | annotate target name argument span =>
    obtain ⟨argument', -, h⟩ := bind_eq_ok h
    obtain ⟨-, -, h⟩ := bind_eq_ok h
    exact absurd (Except.ok.inj h) (by simp)
  | statement st =>
    obtain ⟨s', hsettle, h⟩ := bind_eq_ok h
    obtain rfl := Item.statement.inj (Except.ok.inj h)
    exact ⟨st, rfl, hsettle⟩

/-- The places of a script delimit what they name. The text of every expression in it, behind
`val v =`, is read to the expression; the operands of an expression lie in it, the left one before
the right one, and all expressions of a statement lie in the statement. The annotations and the
statements of a script stand one after another. -/
theorem readsBack_of_parse {p : Program} (h : parse file text = .ok p) :
    (∀ s ∈ p.statements, ∀ e ∈ s.value.nodes,
      e.ReadsBack file text ∧ e.IsPlaced ∧ e.span.Within s.span) ∧ p.InSourceOrder := by
  obtain ⟨script, items, hscript, hitems, rfl⟩ := exists_items_of_parse h
  obtain ⟨horder, -⟩ := hscript.inOrder
  constructor
  · intro s hs e he
    obtain ⟨i, hi, hitem⟩ := exists_of_forall₂_right hitems (mem_statementsOf hs)
    obtain ⟨st, rfl, hsettle⟩ := Item.exists_statement_of_settle hitem
    obtain ⟨hvalue, hspan⟩ := Statement.settle_eq_ok hsettle
    obtain ⟨w, hw, he⟩ := Expr.exists_mem_nodes_of_settle hvalue e he
    obtain ⟨hplaced, hwithin⟩ := ScriptTree.isPlaced_of_mem_nodes horder hi w hw
    rw [← Expr.span_settle he, ← hspan] at hwithin
    have hfile : file ≠ "" := by
      rintro rfl
      exact st.settle_unnamed_ne_ok s hsettle
    exact ⟨(ScriptTree.occurs hi w hw).readsBack hscript hfile he, hplaced.of_settle he, hwithin⟩
  · have hspans : script.items.map Item.span = items.map Item.span := by
      rw [← List.forall₂_eq_eq_eq, List.forall₂_map_left_iff, List.forall₂_map_right_iff]
      exact hitems.imp fun i i' hi => (Item.span_settle hi).symm
    obtain ⟨hlt, hpairwise⟩ := ScriptTree.pairwise_items horder
    have hpairwise := List.pairwise_map.2 hpairwise
    rw [hspans] at hpairwise
    refine Program.inSourceOrder_ofItems file (fun i' hi' => ?_) (List.pairwise_map.1 hpairwise)
    obtain ⟨i, hi, hsettle⟩ := exists_of_forall₂_right hitems hi'
    rw [Item.span_settle hsettle]
    exact hlt i hi

end

attribute [local instance] CharacterNames.none

/-- The expressions of a script with brackets, signs and a comment. -/
theorem readsBack_nested :
    let text := "@file:Import(\"b\")\nval x = -(1 + a.b) * ((2)) <= f # é\nprintln((\"é\") + -c); 7"
    ∃ p, parse "/a" text = .ok p ∧
      (p.statements.flatMap fun s => s.value.nodes.map fun e =>
        String.ofList (e.span.cut .first text.toList)) =
        ["-(1 + a.b) * ((2)) <= f", "-(1 + a.b) * ((2))", "-(1 + a.b)", "1 + a.b", "1", "a.b", "2",
          "f", "(\"é\") + -c", "\"é\"", "-c", "c", "7"] ∧
      (∀ s ∈ p.statements, ∀ e ∈ s.value.nodes,
        e.ReadsBack "/a" text ∧ e.IsPlaced ∧ e.span.Within s.span) ∧ p.InSourceOrder := by
  intro text
  have htexts : (parse "/a" text).toOption.map (fun p => p.statements.flatMap fun s =>
      s.value.nodes.map fun e => String.ofList (e.span.cut .first text.toList)) =
      some ["-(1 + a.b) * ((2)) <= f", "-(1 + a.b) * ((2))", "-(1 + a.b)", "1 + a.b", "1", "a.b",
        "2", "f", "(\"é\") + -c", "\"é\"", "-c", "c", "7"] := by decide +kernel
  obtain ⟨p, hp, htexts⟩ := Option.map_eq_some_iff.1 htexts
  rw [toOption_eq_some_iff] at hp
  exact ⟨p, hp, htexts, readsBack_of_parse hp⟩

end ScriptRunner.Script
