import ScriptRunner.Proofs.Script.Drafts

/-!
# Runs of the machine on derivations

The machine on derivations reads the tokens of every derivation and comes to that derivation, so the
tokens determine it. Whatever it has read, it can go on to the end of a script.

## Main definitions

* `Draft`, `Draft.run` - the parts of a script that are complete with the line after them, and what
  tokens make of it.
* `ExprTree.IsRead` - what the machine does with the tokens of an expression, by level.

## Main statements

* `Draft.tokens_of_run` - a run loses no token.
* `Draft.run_tokens` - the tokens of a derivation lead to the derivation.
* `ScriptTree.eq_of_tokens_eq` - the grammar is unambiguous.
* `Line.exists_completes` - every line can be completed.
* `startsWith_iff_allows` - the machine allows exactly the terminals that the grammar allows.
-/

namespace ScriptRunner.Script

/-- A script in the making: its complete parts, and the current line. -/
structure Draft where
  parts : ScriptTree
  line : Line

namespace Draft

/-- The script of which nothing has been read. -/
def start : Draft := ⟨[], .start⟩

def tokens (d : Draft) : List Token :=
  d.parts.tokens ++ d.line.tokens

/-- The script after one more token, if the token may stand there. -/
def step (d : Draft) (t : Token) : Option Draft :=
  (d.line.step t).map fun x => ⟨d.parts ++ x.2.toList, x.1⟩

/-- The script after more tokens, if each of them may stand where it does. -/
def run (d : Draft) (ts : List Token) : Option Draft :=
  ts.foldlM step d

variable {d d' : Draft} {t : Token} {ts ts' : List Token}

@[simp] theorem run_nil (d : Draft) : d.run [] = some d := rfl

theorem run_cons (d : Draft) (t : Token) (ts : List Token) :
    d.run (t :: ts) = (d.step t).bind fun next => next.run ts := by
  rw [run, List.foldlM_cons]
  rfl

theorem run_append (d : Draft) (ts ts' : List Token) :
    d.run (ts ++ ts') = (d.run ts).bind fun next => next.run ts' := by
  rw [run, List.foldlM_append]
  rfl

theorem exists_run_of_append {last : Draft} (h : d.run (ts ++ ts') = some last) :
    ∃ mid, d.run ts = some mid ∧ mid.run ts' = some last := by
  rw [run_append] at h
  exact Option.bind_eq_some_iff.1 h

theorem exists_step_of_cons {last : Draft} (h : d.run (t :: ts) = some last) :
    ∃ mid, d.step t = some mid ∧ mid.run ts = some last := by
  rw [run_cons] at h
  exact Option.bind_eq_some_iff.1 h

/-- The machine without derivations follows each step. -/
theorem step_phase (h : d.step t = some d') :
    ∃ item, d.line.phase.step t = some (d'.line.phase, item) := by
  obtain ⟨⟨line, part⟩, hline, rfl⟩ := Option.map_eq_some_iff.1 h
  exact ⟨_, by rw [Line.step_phase, hline]; rfl⟩

theorem tokens_of_step (h : d.step t = some d') : d'.tokens = d.tokens ++ [t] := by
  obtain ⟨⟨line, part⟩, hstep, rfl⟩ := Option.map_eq_some_iff.1 h
  simp [tokens, ScriptTree.tokens, Line.tokens_of_step hstep]

/-- A run loses no token. -/
theorem tokens_of_run (h : d.run ts = some d') : d'.tokens = d.tokens ++ ts := by
  induction ts generalizing d with
  | nil =>
    obtain rfl := Option.some.inj h
    simp
  | cons t ts ih =>
    obtain ⟨next, hstep, hrun⟩ := exists_step_of_cons h
    rw [ih hrun, tokens_of_step hstep, List.append_assoc, List.singleton_append]

end Draft

namespace Line

/-- Tokens lead from one line to another and complete no part. -/
def Leads (line : Line) (ts : List Token) (next : Line) : Prop :=
  ∀ parts : ScriptTree, Draft.run ⟨parts, line⟩ ts = some ⟨parts, next⟩

variable {line mid next : Line} {t : Token} {ts ts' : List Token}

theorem Leads.append (h : line.Leads ts mid) (h' : mid.Leads ts' next) :
    line.Leads (ts ++ ts') next := fun parts => by
  rw [Draft.run_append, h parts, Option.bind_some, h' parts]

theorem Leads.cons (h : line.step t = some (mid, none)) (h' : mid.Leads ts next) :
    line.Leads (t :: ts) next := fun parts => by
  rw [Draft.run_cons, Draft.step, h]
  simpa using h' parts

theorem Leads.single (h : line.step t = some (next, none)) : line.Leads [t] next :=
  .cons h fun _ => rfl

/-- Behind an operand only a dot asks whether the operand is a name. -/
theorem step_operandEnd (ctx : ContextTree) (a : ExprTree .atom) (h : t.terminal ≠ .mark .dot) :
    (operandEnd ctx a).step t = afterOperand ctx a t := by
  cases a with
  | name owner =>
    unfold step
    split <;> simp_all
  | _ => rfl

/-- An operator behind an operand. -/
theorem Leads.operator {ctx : ContextTree} {a : ExprTree .atom} {op : Operator} {sign : Leaf}
    {pending : PendingTree} (h : ctx.pending.extend a op sign = some pending) :
    (operandEnd ctx a).Leads [sign.as (.operator op)]
      (beforeOperand { ctx with pending := pending }) := by
  refine .single ?_
  rw [step_operandEnd ctx a (by simp)]
  simp [afterOperand, h]

end Line

open Line (Leads)

/-- The machine reads the tokens of an expression: what waited before waits on, and what has been
read of the expression is with it or in the last operand. -/
def ExprTree.IsRead : {l : Level} → ExprTree l → Prop
  | .atom, a => ∀ ctx, Leads (.beforeOperand ctx) a.tokens (.operandEnd ctx a)
  | .unary, u => ∀ ctx, ∃ minuses a,
    Leads (.beforeOperand ctx) u.tokens (.operandEnd { ctx with
      pending := { ctx.pending with minuses := minuses ++ ctx.pending.minuses } } a) ∧
    minuses.foldl (fun u minus => .negate minus u) (.ofAtom a) = u
  | .product, p => ∀ ctx, ctx.pending.product = none → ctx.pending.minuses = [] →
    ∃ pending a,
      Leads (.beforeOperand ctx) p.tokens (.operandEnd { ctx with pending := pending } a) ∧
      pending.comparison = ctx.pending.comparison ∧ pending.sum = ctx.pending.sum ∧
      pending.productWith a = p
  | .sum, s => ∀ ctx, ctx.pending.sum = none → ctx.pending.product = none →
    ctx.pending.minuses = [] →
    ∃ pending a,
      Leads (.beforeOperand ctx) s.tokens (.operandEnd { ctx with pending := pending } a) ∧
      pending.comparison = ctx.pending.comparison ∧ pending.sumWith a = s
  | .expr, e => ∀ ctx, ctx.pending = {} →
    ∃ pending a,
      Leads (.beforeOperand ctx) e.tokens (.operandEnd { ctx with pending := pending } a) ∧
      pending.whole a = e

namespace ExprTree.IsRead

theorem bracket {inner : ExprTree .expr} (h : inner.IsRead) (opening closing : Leaf) :
    (ExprTree.bracket opening inner closing).IsRead := by
  intro ctx
  -- Inside the bracket nothing waits; what waits outside comes back behind it.
  obtain ⟨pending, a, hinner, hwhole⟩ :=
    h ⟨ctx.opening, (ctx.pending, opening) :: ctx.brackets, {}⟩ rfl
  refine .cons rfl (hinner.append (.single ?_))
  rw [Line.step_operandEnd _ a (by simp)]
  simp [Line.afterOperand, Line.closeBracket, hwhole]

theorem ofAtom {a : ExprTree .atom} (h : a.IsRead) : (ExprTree.ofAtom a).IsRead :=
  fun ctx => ⟨[], a, h ctx, rfl⟩

theorem negate {u : ExprTree .unary} (h : u.IsRead) (minus : Leaf) :
    (ExprTree.negate minus u).IsRead := by
  intro ctx
  obtain ⟨minuses, a, hu, hsigned⟩ :=
    h { ctx with pending := { ctx.pending with minuses := minus :: ctx.pending.minuses } }
  refine ⟨minuses ++ [minus], a, .cons rfl ?_, by simp [hsigned]⟩
  simpa using hu

theorem ofUnary {u : ExprTree .unary} (h : u.IsRead) : (ExprTree.ofUnary u).IsRead := by
  intro ctx hproduct hminuses
  obtain ⟨minuses, a, hu, hsigned⟩ := h ctx
  refine ⟨_, a, hu, rfl, rfl, ?_⟩
  simp [PendingTree.productWith, PendingTree.signed, hproduct, hminuses, hsigned]

theorem product {left : ExprTree .product} {right : ExprTree .unary} (hleft : left.IsRead)
    (hright : right.IsRead) (op : OperatorOf .product) (sign : Leaf) :
    (ExprTree.product left op sign right).IsRead := by
  intro ctx hproduct hminuses
  obtain ⟨pending, a, hread, hcomparison, hsum, hwith⟩ := hleft ctx hproduct hminuses
  have hextend := pending.extend_product a op sign
  rw [hwith] at hextend
  obtain ⟨minuses, b, hunary, hsigned⟩ :=
    hright { ctx with pending := { pending with product := some ⟨left, op, sign⟩, minuses := [] } }
  refine ⟨_, b, hread.append ((Leads.operator hextend).append hunary), hcomparison, hsum, ?_⟩
  simp [PendingTree.productWith, PendingTree.signed, hsigned]

theorem ofProduct {p : ExprTree .product} (h : p.IsRead) : (ExprTree.ofProduct p).IsRead := by
  intro ctx hsum hproduct hminuses
  obtain ⟨pending, a, hread, hcomparison, hsum', hwith⟩ := h ctx hproduct hminuses
  refine ⟨pending, a, hread, hcomparison, ?_⟩
  simp [PendingTree.sumWith, hsum', hsum, hwith]

theorem sum {left : ExprTree .sum} {right : ExprTree .product} (hleft : left.IsRead)
    (hright : right.IsRead) (op : OperatorOf .sum) (sign : Leaf) :
    (ExprTree.sum left op sign right).IsRead := by
  intro ctx hsum hproduct hminuses
  obtain ⟨pending, a, hread, hcomparison, hwith⟩ := hleft ctx hsum hproduct hminuses
  have hextend := pending.extend_sum a op sign
  rw [hwith] at hextend
  obtain ⟨next, b, hread', hcomparison', hsum', hwith'⟩ := hright
    { ctx with pending := { comparison := pending.comparison, sum := some ⟨left, op, sign⟩ } }
    rfl rfl
  refine ⟨next, b, hread.append ((Leads.operator hextend).append hread'),
    hcomparison'.trans hcomparison, ?_⟩
  simp [PendingTree.sumWith, hsum', hwith']

theorem ofSum {s : ExprTree .sum} (h : s.IsRead) : (ExprTree.ofSum s).IsRead := by
  intro ctx hempty
  obtain ⟨pending, a, hread, hcomparison, hwith⟩ := h ctx (by simp [hempty]) (by simp [hempty])
    (by simp [hempty])
  refine ⟨pending, a, hread, ?_⟩
  simp [PendingTree.whole, hcomparison, hempty, hwith]

theorem comparison {left right : ExprTree .sum} (hleft : left.IsRead) (hright : right.IsRead)
    (op : OperatorOf .comparison) (sign : Leaf) :
    (ExprTree.comparison left op sign right).IsRead := by
  intro ctx hempty
  obtain ⟨pending, a, hread, hcomparison, hwith⟩ :=
    hleft ctx (by simp [hempty]) (by simp [hempty]) (by simp [hempty])
  have hextend := pending.extend_comparison a op sign (hcomparison.trans (by simp [hempty]))
  rw [hwith] at hextend
  obtain ⟨next, b, hread', hcomparison', hwith'⟩ := hright
    { ctx with pending := { comparison := some ⟨left, op, sign⟩ } } rfl rfl rfl
  refine ⟨next, b, hread.append ((Leads.operator hextend).append hread'), ?_⟩
  simp [PendingTree.whole, hcomparison', hwith']

end ExprTree.IsRead

theorem ExprTree.isRead {l : Level} (t : ExprTree l) : t.IsRead := by
  induction t with
  | number leaf => exact fun ctx => .single rfl
  | string leaf => exact fun ctx => .single rfl
  | truth b leaf => exact fun ctx => .single rfl
  | name leaf => exact fun ctx => .single rfl
  | member owner dot field => exact fun ctx => .cons rfl (.cons rfl (.single rfl))
  | bracket opening inner closing ih => exact ih.bracket opening closing
  | ofAtom a ih => exact ih.ofAtom
  | negate minus operand ih => exact ih.negate minus
  | ofUnary u ih => exact ih.ofUnary
  | product left op sign right ihLeft ihRight => exact ihLeft.product ihRight op sign
  | ofProduct p ih => exact ih.ofProduct
  | sum left op sign right ihLeft ihRight => exact ihLeft.sum ihRight op sign
  | ofSum s ih => exact ih.ofSum
  | comparison left op sign right ihLeft ihRight => exact ihLeft.comparison ihRight op sign

namespace Line

/-- A line end completes a statement that may end behind an operand. -/
theorem step_lineEnd {ctx : ContextTree} {a : ExprTree .atom} {st : StatementTree}
    (h : endStatement ctx a = some st) (leaf : Leaf) :
    (operandEnd ctx a).step (leaf.as .lineEnd) = some (start, some (.line st leaf)) := by
  rw [step_operandEnd ctx a (by simp)]
  simp [afterOperand, h]

theorem step_semicolon {ctx : ContextTree} {a : ExprTree .atom} {st : StatementTree}
    (h : endStatement ctx a = some st) (leaf : Leaf) :
    (operandEnd ctx a).step (leaf.as (.mark .semicolon)) =
      some (start, some (.segment st leaf)) := by
  rw [step_operandEnd ctx a (by simp)]
  simp [afterOperand, h]

theorem step_closeParen {ctx : ContextTree} {a : ExprTree .atom} {next : Line} (closing : Leaf)
    (h : closeBracket ctx a closing = some next) :
    (operandEnd ctx a).step (closing.as (.mark .closeParen)) = some (next, none) := by
  rw [step_operandEnd ctx a (by simp)]
  simp [afterOperand, h]

/-- A line may start with an operand. -/
theorem step_start {t : Token} {next : Line}
    (h : startOperand { opening := .expression } t = some next) :
    start.step t = some (next, none) := by
  have hmap : (startOperand { opening := .expression } t).map (·, none) =
      some (next, (none : Option Part)) := by rw [h, Option.map_some]
  obtain ⟨terminal, text, span⟩ := t
  rcases terminal with _ | m | o | k | _ | _ | _
  case lineEnd => simp [startOperand] at h
  case mark => cases m <;> first | exact hmap | simp [startOperand] at h
  case keyword => cases k <;> first | exact hmap | simp [startOperand] at h
  all_goals exact hmap

theorem Leads.start {ts : List Token} {ctx : ContextTree} {a : ExprTree .atom}
    (h : (beforeOperand { opening := .expression }).Leads ts (operandEnd ctx a)) :
    Line.start.Leads ts (operandEnd ctx a) := by
  cases ts with
  | nil => simpa using h []
  | cons t ts =>
    intro parts
    have hrun := h parts
    rw [Draft.run_cons, Draft.step, step] at hrun
    cases hstart : startOperand { opening := .expression } t with
    | none => simp [hstart] at hrun
    | some next =>
      rw [hstart] at hrun
      rw [Draft.run_cons, Draft.step, step_start hstart]
      simpa using hrun

end Line

/-- The tokens of a statement lead to a line that a line end or a semicolon completes. -/
theorem StatementTree.leads (st : StatementTree) : ∃ line, Leads .start st.tokens line ∧
    (∀ leaf : Leaf, line.step (leaf.as .lineEnd) = some (.start, some (.line st leaf))) ∧
    ∀ leaf : Leaf, line.step (leaf.as (.mark .semicolon)) =
      some (.start, some (.segment st leaf)) := by
  cases st with
  | val keyword name assign value =>
    obtain ⟨pending, a, hvalue, rfl⟩ := value.isRead ⟨.val keyword name assign, [], {}⟩ rfl
    exact ⟨_, .cons rfl (.cons rfl (.cons rfl hvalue)), Line.step_lineEnd rfl,
      Line.step_semicolon rfl⟩
  | print keyword opening value closing =>
    obtain ⟨pending, a, hvalue, rfl⟩ := value.isRead ⟨.print keyword opening, [], {}⟩ rfl
    exact ⟨.printEnd keyword opening (pending.whole a) closing,
      .cons rfl (.cons rfl (hvalue.append (.single (Line.step_closeParen closing rfl)))),
      fun _ => rfl, fun _ => rfl⟩
  | expression value =>
    obtain ⟨pending, a, hvalue, rfl⟩ := value.isRead ⟨.expression, [], {}⟩ rfl
    exact ⟨_, hvalue.start, Line.step_lineEnd rfl, Line.step_semicolon rfl⟩

namespace Draft

theorem run_part (parts : ScriptTree) (part : Part) :
    Draft.run ⟨parts, .start⟩ part.tokens = some ⟨parts ++ [part], .start⟩ := by
  cases part with
  | blank lineEnd => rfl
  | annotate sign target colon name opening argument closing lineEnd =>
    simp [Part.tokens, run_cons, step, Line.step]
  | line st lineEnd =>
    obtain ⟨line, hst, hend, -⟩ := st.leads
    simp [Part.tokens, run_append, hst parts, run_cons, step, hend]
  | segment st semicolon =>
    obtain ⟨line, hst, -, hend⟩ := st.leads
    simp [Part.tokens, run_append, hst parts, run_cons, step, hend]

/-- The tokens of a derivation lead to the derivation. -/
theorem run_tokens (script parts : ScriptTree) :
    Draft.run ⟨parts, .start⟩ script.tokens = some ⟨parts ++ script, .start⟩ := by
  induction script generalizing parts with
  | nil => simp [ScriptTree.tokens]
  | cons part script ih =>
    have htokens : ScriptTree.tokens (part :: script) =
        part.tokens ++ ScriptTree.tokens script := List.flatMap_cons
    rw [htokens, run_append, run_part, Option.bind_some, ih, List.append_assoc,
      List.singleton_append]

end Draft

/-- The grammar is unambiguous: a sequence of tokens has at most one derivation. -/
theorem ScriptTree.eq_of_tokens_eq {script script' : ScriptTree}
    (h : script.tokens = script'.tokens) : script = script' := by
  have hrun := Draft.run_tokens script []
  rw [h, Draft.run_tokens script' []] at hrun
  simpa using hrun.symm

/-- Some text and place; the grammar does not ask which. -/
def Leaf.any : Leaf := ⟨[], ⟨.first, .first⟩⟩

/-- Tokens bring a line to its end. -/
def Line.Completes (line : Line) (ts : List Token) : Prop :=
  ∀ parts : ScriptTree, ∃ parts' : ScriptTree, Draft.run ⟨parts, line⟩ ts = some ⟨parts', .start⟩

namespace Line

theorem Completes.cons {line next : Line} {t : Token} {ts : List Token} {part : Option Part}
    (h : line.step t = some (next, part)) (h' : next.Completes ts) : line.Completes (t :: ts) :=
  fun parts => by
    obtain ⟨parts', hrun⟩ := h' (parts ++ part.toList)
    exact ⟨parts', by simpa [Draft.run_cons, Draft.step, h] using hrun⟩

theorem completes_start : start.Completes [] := fun parts => ⟨parts, rfl⟩

/-- Behind an operand the open brackets are closed, and then the statement ends. -/
theorem exists_completes_operandEnd (brackets : List (PendingTree × Leaf)) :
    ∀ (opening : OpeningTree) (pending : PendingTree) (a : ExprTree .atom),
      ∃ ts, (operandEnd ⟨opening, brackets, pending⟩ a).Completes ts := by
  induction brackets with
  | nil =>
    intro opening pending a
    cases opening with
    | expression => exact ⟨_, .cons (step_lineEnd rfl Leaf.any) completes_start⟩
    | val keyword name assign => exact ⟨_, .cons (step_lineEnd rfl Leaf.any) completes_start⟩
    | print keyword bracket =>
      exact ⟨_, .cons (step_closeParen Leaf.any rfl)
        (.cons (t := Leaf.any.as .lineEnd) rfl completes_start)⟩
  | cons bracket brackets ih =>
    intro opening pending a
    obtain ⟨ts, hts⟩ := ih opening bracket.1 (.bracket bracket.2 (pending.whole a) Leaf.any)
    exact ⟨_, .cons (step_closeParen Leaf.any rfl) hts⟩

theorem exists_completes_beforeOperand (ctx : ContextTree) :
    ∃ ts, (beforeOperand ctx).Completes ts := by
  obtain ⟨ts, hts⟩ :=
    exists_completes_operandEnd ctx.brackets ctx.opening ctx.pending (.number Leaf.any)
  exact ⟨_, .cons (t := Leaf.any.as .number) rfl hts⟩

/-- Every line can be completed. -/
theorem exists_completes (line : Line) : ∃ ts, line.Completes ts := by
  -- The stages of an annotation and of the start of a statement, each from the one after it.
  have hend sign target colon name opening argument closing : ∃ ts,
      (annotationEnd sign target colon name opening argument closing).Completes ts :=
    ⟨_, .cons (t := Leaf.any.as .lineEnd) rfl completes_start⟩
  have hargument sign target colon name opening argument : ∃ ts,
      (annotationArgument sign target colon name opening argument).Completes ts :=
    (hend sign target colon name opening argument Leaf.any).elim fun _ h =>
      ⟨_, .cons (t := Leaf.any.as (.mark .closeParen)) rfl h⟩
  have hopen sign target colon name opening : ∃ ts,
      (annotationOpen sign target colon name opening).Completes ts :=
    (hargument sign target colon name opening Leaf.any).elim fun _ h =>
      ⟨_, .cons (t := Leaf.any.as .string) rfl h⟩
  have hname sign target colon name : ∃ ts, (annotationName sign target colon name).Completes ts :=
    (hopen sign target colon name Leaf.any).elim fun _ h =>
      ⟨_, .cons (t := Leaf.any.as (.mark .openParen)) rfl h⟩
  have hcolon sign target colon : ∃ ts, (annotationColon sign target colon).Completes ts :=
    (hname sign target colon Leaf.any).elim fun _ h => ⟨_, .cons (t := Leaf.any.as .name) rfl h⟩
  have htarget sign target : ∃ ts, (annotationTarget sign target).Completes ts :=
    (hcolon sign target Leaf.any).elim fun _ h =>
      ⟨_, .cons (t := Leaf.any.as (.mark .colon)) rfl h⟩
  have hval keyword name : ∃ ts, (valName keyword name).Completes ts :=
    (exists_completes_beforeOperand { opening := .val keyword name Leaf.any }).elim fun _ h =>
      ⟨_, .cons (t := Leaf.any.as (.mark .assign)) rfl h⟩
  cases line with
  | start => exact ⟨[], completes_start⟩
  | annotationSign sign =>
    exact (htarget sign Leaf.any).elim fun _ h => ⟨_, .cons (t := Leaf.any.as .name) rfl h⟩
  | annotationTarget sign target => exact htarget sign target
  | annotationColon sign target colon => exact hcolon sign target colon
  | annotationName sign target colon name => exact hname sign target colon name
  | annotationOpen sign target colon name opening => exact hopen sign target colon name opening
  | annotationArgument sign target colon name opening argument =>
    exact hargument sign target colon name opening argument
  | annotationEnd sign target colon name opening argument closing =>
    exact hend sign target colon name opening argument closing
  | valKeyword keyword =>
    exact (hval keyword Leaf.any).elim fun _ h => ⟨_, .cons (t := Leaf.any.as .name) rfl h⟩
  | valName keyword name => exact hval keyword name
  | printKeyword keyword =>
    exact (exists_completes_beforeOperand { opening := .print keyword Leaf.any }).elim fun _ h =>
      ⟨_, .cons (t := Leaf.any.as (.mark .openParen)) rfl h⟩
  | beforeOperand ctx => exact exists_completes_beforeOperand ctx
  | ownerDot ctx owner dot =>
    exact (exists_completes_operandEnd ctx.brackets ctx.opening ctx.pending
      (.member owner dot Leaf.any)).elim fun _ h => ⟨_, .cons (t := Leaf.any.as .name) rfl h⟩
  | operandEnd ctx a => exact exists_completes_operandEnd ctx.brackets ctx.opening ctx.pending a
  | printEnd keyword opening value closing =>
    exact ⟨_, .cons (t := Leaf.any.as .lineEnd) rfl completes_start⟩

end Line

namespace Phase

theorem isSome_startOperand (ctx : Context) {t t' : Token} (h : t.terminal = t'.terminal) :
    (startOperand ctx t).isSome = (startOperand ctx t').isSome := by
  unfold startOperand
  rw [h]
  split <;> rfl

theorem isSome_closeBracket (ctx : Context) (operand : Operand) (t t' : Token) :
    (closeBracket ctx operand t).isSome = (closeBracket ctx operand t').isSome := by
  unfold closeBracket
  split <;> rfl

theorem isSome_afterOperand (ctx : Context) (operand : Operand) {t t' : Token}
    (h : t.terminal = t'.terminal) :
    (afterOperand ctx operand t).isSome = (afterOperand ctx operand t').isSome := by
  unfold afterOperand
  rw [h]
  split
  · rfl
  · simpa using isSome_closeBracket ctx operand t t'
  all_goals rfl

/-- Behind a name only a dot asks that it is a name. -/
theorem step_nameEnd (ctx : Context) (name : String) (span : Span) {t : Token}
    (ht : t.terminal ≠ .mark .dot) :
    (nameEnd ctx name span).step t = afterOperand ctx ⟨.name name span, span⟩ t := by
  unfold step
  split <;> simp_all

/-- Whether a token may stand somewhere depends on its terminal alone. -/
theorem isSome_step (phase : Phase) (t : Token) :
    (phase.step t).isSome = phase.allows t.terminal := by
  obtain ⟨terminal, text, span⟩ := t
  have hstart (ctx : Context) : (startOperand ctx ⟨terminal, text, span⟩).isSome =
      (startOperand ctx ⟨terminal, [], ⟨.first, .first⟩⟩).isSome := isSome_startOperand ctx rfl
  have hafter (ctx : Context) (operand : Operand) :
      (afterOperand ctx operand ⟨terminal, text, span⟩).isSome =
        (afterOperand ctx operand ⟨terminal, [], ⟨.first, .first⟩⟩).isSome :=
    isSome_afterOperand ctx operand rfl
  -- Elsewhere a step looks at the phase and the terminal only.
  unfold allows step
  split <;> simp_all

end Phase

theorem Draft.isSome_step (d : Draft) (t : Token) :
    (d.step t).isSome = d.line.phase.allows t.terminal := by
  rw [← Phase.isSome_step, Line.step_phase, Draft.step, Option.isSome_map, Option.isSome_map]

/-- Some script starts with the tokens that have been read and then a token of a terminal. -/
def StartsWith (before : List Token) (terminal : Terminal) : Prop :=
  ∃ (script : ScriptTree) (leaf : Leaf), before ++ [leaf.as terminal] <+: script.tokens

/-- The machine allows exactly the terminals that the grammar allows. -/
theorem startsWith_iff_allows {before : List Token} {d : Draft}
    (h : Draft.start.run before = some d) (terminal : Terminal) :
    StartsWith before terminal ↔ d.line.phase.allows terminal = true := by
  have hallows : ∀ leaf : Leaf, (d.step (leaf.as terminal)).isSome =
      d.line.phase.allows terminal := fun leaf => d.isSome_step _
  constructor
  · rintro ⟨script, leaf, rest, htokens⟩
    -- The machine reads the whole script, so it reads the token on its way.
    have hrun := Draft.run_tokens script []
    rw [← htokens, List.append_assoc, Draft.run_append, ← Draft.start, h, Option.bind_some] at hrun
    obtain ⟨next, hnext, -⟩ := Draft.exists_step_of_cons hrun
    rw [← hallows leaf, hnext, Option.isSome_some]
  · intro hterminal
    rw [← hallows Leaf.any, Option.isSome_iff_exists] at hterminal
    obtain ⟨next, hnext⟩ := hterminal
    obtain ⟨ts, hts⟩ := next.line.exists_completes
    obtain ⟨script, hscript⟩ := hts next.parts
    have hrun : Draft.start.run (before ++ Leaf.any.as terminal :: ts) = some ⟨script, .start⟩ := by
      rw [Draft.run_append, h, Option.bind_some, Draft.run_cons, hnext, Option.bind_some, hscript]
    have htokens := Draft.tokens_of_run hrun
    refine ⟨script, Leaf.any, ts, ?_⟩
    simpa [Draft.tokens, Draft.start, Line.tokens, ScriptTree.tokens] using htokens.symm

end ScriptRunner.Script
