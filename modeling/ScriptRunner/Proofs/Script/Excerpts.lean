import ScriptRunner.Proofs.Script.Boundaries
import ScriptRunner.Proofs.Script.Places

/-!
# The texts of expressions

The text inside the span of some tokens is cut into them. Every expression of a script has a
derivation of its own, which stands where the machine waits for an operand and whose tokens reach
over what the expression takes up.

## Main definitions

* `Span.cut` - the text inside a span.
* `Phase.IsOpen` - a phase that waits for an operand.
* `Occurs` - an expression has a derivation of its own among tokens.

## Main statements

* `Lexes.exists_excerpt` - the text of some tokens of a text.
* `ExprTree.eachOccurs`, `ScriptTree.occurs` - every expression has a derivation of its own.
-/

namespace ScriptRunner

namespace Span

/-- The text inside a span, of a text that starts at a position. -/
def cut (s : Span) : Position → List Char → List Char
  | _, [] => []
  | p, c :: cs =>
    if s.start ≤ p ∧ p < s.stop then c :: s.cut (p.advance c) cs else s.cut (p.advance c) cs

variable {s : Span} {p : Position} {xs : List Char}

theorem cut_append (s : Span) (p : Position) (xs ys : List Char) :
    s.cut p (xs ++ ys) = s.cut p xs ++ s.cut (p.advanceAll xs) ys := by
  induction xs generalizing p with
  | nil => rfl
  | cons c xs ih =>
    rw [List.cons_append, cut, cut, ih, Position.advanceAll_cons]
    split <;> rfl

theorem cut_of_le_start (h : p.advanceAll xs ≤ s.start) : s.cut p xs = [] := by
  induction xs generalizing p with
  | nil => rfl
  | cons c xs ih =>
    have hlt : p < s.start :=
      (p.lt_advance c).trans_le ((Position.le_advanceAll _ xs).trans h)
    rw [cut, if_neg fun hin => not_lt_of_ge hin.1 hlt]
    exact ih h

theorem cut_of_stop_le (h : s.stop ≤ p) : s.cut p xs = [] := by
  induction xs generalizing p with
  | nil => rfl
  | cons c xs ih =>
    rw [cut, if_neg fun hin => not_lt_of_ge h hin.2]
    exact ih (h.trans (p.lt_advance c).le)

theorem cut_of_inside (hstart : s.start ≤ p) (hstop : p.advanceAll xs ≤ s.stop) :
    s.cut p xs = xs := by
  induction xs generalizing p with
  | nil => rfl
  | cons c xs ih =>
    have hlt : p < s.stop := (p.lt_advance c).trans_le ((Position.le_advanceAll _ xs).trans hstop)
    rw [cut, if_pos ⟨hstart, hlt⟩, ih (hstart.trans (p.lt_advance c).le) hstop]

/-- The text between two places of a text. -/
theorem cut_middle (p : Position) (xs mid ys : List Char) :
    Span.cut ⟨p.advanceAll xs, (p.advanceAll xs).advanceAll mid⟩ p (xs ++ (mid ++ ys)) = mid := by
  rw [cut_append, cut_append, cut_of_le_start (le_refl _), cut_of_inside (le_refl _) (le_refl _),
    cut_of_stop_le (le_refl _), List.nil_append, List.append_nil]

end Span

namespace Script

section

variable {before mid post : List Token} {position : Position} {cs : List Char}

/-- The stop of the last token, whatever it is if there is none. -/
theorem getD_getLast?_cons (t : Token) (ts : List Token) (p : Position) :
    ((t :: ts).getLast?.map (·.span.stop)).getD p =
      (ts.getLast?.map (·.span.stop)).getD t.span.stop := by
  rw [List.getLast?_cons]
  cases ts.getLast? <;> rfl

/-- A text is cut where the last of its first tokens ends. -/
theorem Lexes.exists_split (h : Lexes before position cs (mid ++ post)) :
    ∃ front behind, front ++ behind = cs ∧ Lexes before position front mid ∧
      Lexes (before ++ mid) (position.advanceAll front) behind post ∧
      (mid.getLast?.map (·.span.stop)).getD position = position.advanceAll front := by
  generalize htokens : mid ++ post = tokens at h
  induction h generalizing mid with
  | @done before position =>
    obtain ⟨rfl, rfl⟩ := List.append_eq_nil_iff.1 htokens
    exact ⟨[], [], rfl, .done, .done, rfl⟩
  | @skip before tokens position cs text rest l hmunch hl hrest ih =>
    cases mid with
    | nil =>
      obtain rfl : post = tokens := htokens
      exact ⟨[], cs, rfl, .done, by simpa using .skip hmunch hl hrest, rfl⟩
    | cons t mid =>
      obtain ⟨front, behind, rfl, hfront, hbehind, hlast⟩ := ih htokens
      refine ⟨text ++ front, behind, by rw [← hmunch.split, List.append_assoc],
        .skip hmunch.truncate hl hfront, ?_, ?_⟩
      · rwa [Position.advanceAll_append]
      · rw [Position.advanceAll_append, ← hlast, getD_getLast?_cons, getD_getLast?_cons]
  | @token before tokens position cs text rest terminal hmunch hrest ih =>
    cases mid with
    | nil =>
      obtain rfl : post = _ := htokens
      exact ⟨[], cs, rfl, .done, by simpa using .token hmunch hrest, rfl⟩
    | cons t mid =>
      obtain ⟨rfl, hmid⟩ := List.cons.inj htokens
      obtain ⟨front, behind, rfl, hfront, hbehind, hlast⟩ := ih hmid
      refine ⟨text ++ front, behind, by rw [← hmunch.split, List.append_assoc],
        .token hmunch.truncate hfront, ?_, ?_⟩
      · rw [Position.advanceAll_append]
        simpa using hbehind
      · rw [Position.advanceAll_append, ← hlast, getD_getLast?_cons]

/-- The text from the first token on, behind blanks and comments. -/
theorem Lexes.exists_gap {t : Token} (h : Lexes before position cs (t :: post)) :
    ∃ gap behind, gap ++ behind = cs ∧ (blankRun false gap).2 = [] ∧
      t.span.start = position.advanceAll gap ∧
        Lexes before (position.advanceAll gap) behind (t :: post) := by
  generalize htokens : t :: post = tokens at h
  induction h with
  | done => simp at htokens
  | @skip before tokens position cs text rest l hmunch hl hrest ih =>
    obtain ⟨gap, behind, rfl, hgap, hstart, hbehind⟩ := ih htokens
    have hbetween : IsBlanks text ∨ IsComment text ∧ ∀ c ∈ gap.head?, c = '\n' := by
      obtain rfl | rfl := hl
      · exact .inl hmunch.spells
      · refine .inr ⟨hmunch.spells, fun c hc => hmunch.head_of_comment c ?_⟩
        simp [List.head?_append, Option.mem_def.1 hc]
    refine ⟨text ++ gap, behind, by rw [← hmunch.split, List.append_assoc], ?_, ?_⟩
    · rw [blankRun_append_of_between hbetween]
      exact hgap
    · rw [Position.advanceAll_append]
      exact ⟨hstart, hbehind⟩
  | @token before tokens position cs text rest terminal hmunch hrest ih =>
    obtain ⟨rfl, rfl⟩ := List.cons.inj htokens
    exact ⟨[], cs, rfl, rfl, rfl, .token hmunch hrest⟩

/-- The text inside the span of some tokens is cut into them. -/
theorem Lexes.exists_excerpt {pre : List Token} {s : Span}
    (h : Lexes before position cs (pre ++ (mid ++ post))) (hspans : Spans mid s) :
    (∃ front behind, front ++ (s.cut position cs ++ behind) = cs) ∧
      Lexes (before ++ pre) s.start (s.cut position cs) mid := by
  obtain ⟨front, rest, rfl, -, hrest, -⟩ := h.exists_split
  obtain ⟨first, hfirst, last, hlast, rfl⟩ := hspans
  obtain ⟨mid, rfl⟩ := List.head?_eq_some_iff.1 hfirst
  obtain ⟨gap, rest, rfl, -, hstart, hrest⟩ := hrest.exists_gap
  have hrest : Lexes (before ++ pre) ((position.advanceAll front).advanceAll gap) rest
      ((first :: mid) ++ post) := hrest
  obtain ⟨inner, behind, rfl, hinner, -, hstop⟩ := hrest.exists_split
  have hspan : first.span.upTo last.span = ⟨position.advanceAll (front ++ gap),
      (position.advanceAll (front ++ gap)).advanceAll inner⟩ := by
    rw [Position.advanceAll_append, ← hstop, hlast, ← hstart]
    rfl
  have hcut : (first.span.upTo last.span).cut position (front ++ (gap ++ (inner ++ behind))) =
      inner := by
    rw [hspan, ← List.append_assoc]
    exact Span.cut_middle position (front ++ gap) inner behind
  rw [hcut]
  refine ⟨⟨front ++ gap, behind, List.append_assoc ..⟩, ?_⟩
  rw [hspan, Position.advanceAll_append]
  exact hinner

end

/-- A phase that waits for an operand. -/
inductive Phase.IsOpen : Phase → Prop
  | lineStart : IsOpen .lineStart
  | beforeOperand (ctx : Context) : IsOpen (.beforeOperand ctx)

/-- Behind an operator or a minus sign the machine waits for an operand. -/
theorem Phase.isOpen_of_operator {phase next : Phase} {op : Operator} {text : List Char}
    {span : Span} {item : Option WrittenItem}
    (h : phase.step ⟨.operator op, text, span⟩ = some (next, item)) : next.IsOpen := by
  have hstart : ∀ {ctx : Context},
      (startOperand ctx ⟨.operator op, text, span⟩).map (·, none) = some (next, item) →
        next.IsOpen := by
    intro ctx h
    obtain ⟨phase, hphase, heq⟩ := Option.map_eq_some_iff.1 h
    obtain ⟨rfl, -⟩ := Prod.mk.inj heq
    have hbefore : ∃ ctx', phase = .beforeOperand ctx' := by
      unfold startOperand at hphase
      split at hphase <;> simp_all [eq_comm]
    obtain ⟨ctx', rfl⟩ := hbefore
    exact .beforeOperand ctx'
  have hafter : ∀ {ctx : Context} {operand : Operand},
      afterOperand ctx operand ⟨.operator op, text, span⟩ = some (next, item) → next.IsOpen := by
    intro ctx operand h
    simp only [afterOperand] at h
    split at h
    · obtain ⟨rfl, -⟩ := Prod.mk.inj (Option.some.inj h)
      exact .beforeOperand _
    · simp at h
  cases phase with
  | lineStart => exact hstart h
  | beforeOperand ctx => exact hstart h
  | nameEnd ctx name span => exact hafter h
  | operandEnd ctx operand => exact hafter h
  | _ => simp [step] at h

theorem Phase.IsOpen.openParen {phase next : Phase} (hopen : phase.IsOpen) {text : List Char}
    {span : Span} {item : Option WrittenItem}
    (h : phase.step ⟨.mark .openParen, text, span⟩ = some (next, item)) : next.IsOpen := by
  cases hopen with
  | lineStart =>
    obtain ⟨rfl, -⟩ := Prod.mk.inj (Option.some.inj h)
    exact .beforeOperand _
  | beforeOperand ctx =>
    obtain ⟨rfl, -⟩ := Prod.mk.inj (Option.some.inj h)
    exact .beforeOperand _

/-- Among tokens, those of a derivation of an expression stand where the machine waits for an
operand; the derivation reaches over what the expression takes up, no bracket around it. -/
inductive Occurs (w : Expr Written) (ts : List Token) : Prop
  | intro {l : Level} (e : ExprTree l) {pre post : List Token} {d : Draft}
    (hts : ts = pre ++ (e.tokens ++ post)) (hexpr : e.operand.expr = w)
    (hextent : e.operand.extent = w.span) (hrun : Draft.start.run pre = some d)
    (hopen : d.line.phase.IsOpen)

theorem Occurs.append {w : Expr Written} {ts : List Token} (h : Occurs w ts) (more : List Token) :
    Occurs w (ts ++ more) := by
  obtain ⟨e, rfl, hexpr, hextent, hrun, hopen⟩ := h
  exact .intro e (by simp only [List.append_assoc]; rfl) hexpr hextent hrun hopen

theorem Occurs.self {l : Level} (e : ExprTree l) {before : List Token} {d : Draft}
    (hextent : e.operand.extent = e.operand.expr.span) (hbefore : Draft.start.run before = some d)
    (hopen : d.line.phase.IsOpen) : Occurs e.operand.expr (before ++ e.tokens) :=
  .intro e (by rw [List.append_nil]) rfl hextent hbefore hopen

namespace ExprTree

/-- Each expression that a derivation determines has a derivation of its own, wherever the tokens
stand behind others. -/
def EachOccurs {l : Level} (e : ExprTree l) : Prop :=
  ∀ {before : List Token} {d next : Draft}, Draft.start.run before = some d →
    d.line.phase.IsOpen → d.run e.tokens = some next →
      ∀ w ∈ e.operand.expr.nodes, Occurs w (before ++ e.tokens)

/-- The expressions on both sides of an operator stand where the whole does, and behind the
operator. -/
theorem EachOccurs.binary {l m : Level} {left : ExprTree l} {right : ExprTree m}
    (hleft : left.EachOccurs) (hright : right.EachOccurs) {op : Operator} {sign : Leaf}
    {before : List Token} {d next : Draft} (hbefore : Draft.start.run before = some d)
    (hopen : d.line.phase.IsOpen)
    (hrun : d.run (left.tokens ++ sign.as (.operator op) :: right.tokens) = some next) :
    ∀ w ∈ left.operand.expr.nodes ++ right.operand.expr.nodes,
      Occurs w (before ++ (left.tokens ++ sign.as (.operator op) :: right.tokens)) := by
  obtain ⟨mid, hrunLeft, hrest⟩ := Draft.exists_run_of_append hrun
  obtain ⟨behind, hsign, hrunRight⟩ := Draft.exists_step_of_cons hrest
  obtain ⟨item, hstep⟩ := Draft.step_phase hsign
  intro w hw
  rcases List.mem_append.1 hw with hw | hw
  · have hoccurs := (hleft hbefore hopen hrunLeft w hw).append
      (sign.as (.operator op) :: right.tokens)
    rwa [List.append_assoc] at hoccurs
  · have hbehind : Draft.start.run (before ++ left.tokens ++ [sign.as (.operator op)]) =
        some behind := by
      refine Draft.run_concat ?_ hsign
      rw [Draft.run_append, hbefore, Option.bind_some, hrunLeft]
    have hoccurs := hright hbehind (Phase.isOpen_of_operator hstep) hrunRight w hw
    simpa using hoccurs

/-- Every expression that a derivation determines has a derivation of its own. -/
theorem eachOccurs {l : Level} (e : ExprTree l) : e.EachOccurs := by
  induction e with
  | ofSum s ih | ofProduct s ih | ofUnary s ih | ofAtom s ih => exact ih
  | comparison left op sign right ihLeft ihRight =>
    intro before d next hbefore hopen hrun w hw
    rcases List.mem_cons.1 hw with rfl | hw
    · exact .self (ExprTree.comparison left op sign right) rfl hbefore hopen
    · exact ihLeft.binary ihRight hbefore hopen hrun w hw
  | sum left op sign right ihLeft ihRight =>
    intro before d next hbefore hopen hrun w hw
    rcases List.mem_cons.1 hw with rfl | hw
    · exact .self (ExprTree.sum left op sign right) rfl hbefore hopen
    · exact ihLeft.binary ihRight hbefore hopen hrun w hw
  | product left op sign right ihLeft ihRight =>
    intro before d next hbefore hopen hrun w hw
    rcases List.mem_cons.1 hw with rfl | hw
    · exact .self (ExprTree.product left op sign right) rfl hbefore hopen
    · exact ihLeft.binary ihRight hbefore hopen hrun w hw
  | negate minus operand ih =>
    intro before d next hbefore hopen hrun w hw
    obtain ⟨behind, hminus, hoperand⟩ := Draft.exists_step_of_cons hrun
    obtain ⟨item, hstep⟩ := Draft.step_phase hminus
    rcases List.mem_cons.1 hw with rfl | hw
    · exact .self (ExprTree.negate minus operand) rfl hbefore hopen
    · have hoccurs := ih (Draft.run_concat hbefore hminus) (Phase.isOpen_of_operator hstep)
        hoperand w hw
      simpa [ExprTree.tokens] using hoccurs
  | bracket opening inner closing ih =>
    intro before d next hbefore hopen hrun w hw
    obtain ⟨behind, hopening, hrest⟩ := Draft.exists_step_of_cons hrun
    obtain ⟨mid, hinner, -⟩ := Draft.exists_run_of_append hrest
    obtain ⟨item, hstep⟩ := Draft.step_phase hopening
    have hoccurs := (ih (Draft.run_concat hbefore hopening) (hopen.openParen hstep) hinner w
      hw).append [closing.as (.mark .closeParen)]
    simpa [ExprTree.tokens] using hoccurs
  | number leaf =>
    intro before d next hbefore hopen hrun w hw
    obtain rfl := List.mem_singleton.1 hw
    exact .self (ExprTree.number leaf) rfl hbefore hopen
  | string leaf =>
    intro before d next hbefore hopen hrun w hw
    obtain rfl := List.mem_singleton.1 hw
    exact .self (ExprTree.string leaf) rfl hbefore hopen
  | truth b leaf =>
    intro before d next hbefore hopen hrun w hw
    obtain rfl := List.mem_singleton.1 hw
    exact .self (ExprTree.truth b leaf) rfl hbefore hopen
  | name leaf =>
    intro before d next hbefore hopen hrun w hw
    obtain rfl := List.mem_singleton.1 hw
    exact .self (ExprTree.name leaf) rfl hbefore hopen
  | member owner dot field =>
    intro before d next hbefore hopen hrun w hw
    obtain rfl := List.mem_singleton.1 hw
    exact .self (ExprTree.member owner dot field) rfl hbefore hopen

end ExprTree

/-- The expression of a statement stands where the machine waits for an operand. -/
theorem StatementTree.exists_opening (st : StatementTree) (parts : ScriptTree) :
    ∃ (opening : OpeningTree) (post : List Token) (d : Draft),
      st.tokens = opening.tokens ++ (st.value.tokens ++ post) ∧
      Draft.run ⟨parts, .start⟩ opening.tokens = some d ∧ d.line.phase.IsOpen := by
  cases st with
  | val keyword name assign value =>
    refine ⟨.val keyword name assign, [],
      ⟨parts, .beforeOperand { opening := .val keyword name assign }⟩, ?_, ?_, .beforeOperand _⟩
    · rw [List.append_nil]
      rfl
    · simp [OpeningTree.tokens, Draft.run_cons, Draft.step, Line.step]
  | print keyword opening value closing =>
    refine ⟨.print keyword opening, [closing.as (.mark .closeParen)],
      ⟨parts, .beforeOperand { opening := .print keyword opening }⟩, rfl, ?_, .beforeOperand _⟩
    simp [OpeningTree.tokens, Draft.run_cons, Draft.step, Line.step]
  | expression value =>
    refine ⟨.expression, [], ⟨parts, .start⟩, ?_, rfl, .lineStart⟩
    rw [List.append_nil]
    rfl

/-- Every expression of a script has a derivation of its own. -/
theorem ScriptTree.occurs {script : ScriptTree} {st : Statement Written}
    (hst : .statement st ∈ script.items) : ∀ w ∈ st.value.nodes, Occurs w script.tokens := by
  obtain ⟨part, hpart, hitem⟩ := List.mem_filterMap.1 hst
  obtain ⟨tree, last, htokens, rfl⟩ := part.exists_statementTree hitem
  obtain ⟨init, rest, rfl⟩ := List.append_of_mem hpart
  obtain ⟨opening, post, d, hstTokens, hopening, hopen⟩ := tree.exists_opening init
  have hinit : Draft.start.run (ScriptTree.tokens init ++ opening.tokens) = some d := by
    rw [Draft.run_append, Draft.start, Draft.run_tokens init [], Option.bind_some]
    exact hopening
  have hscript : ScriptTree.tokens (init ++ part :: rest) =
      (ScriptTree.tokens init ++ opening.tokens) ++
        (tree.value.tokens ++ (post ++ last :: ScriptTree.tokens rest)) := by
    simp [ScriptTree.tokens, htokens, hstTokens]
  intro w hw
  rw [tree.value_statement] at hw
  have hrun := Draft.run_tokens (init ++ part :: rest) []
  rw [hscript] at hrun
  obtain ⟨mid, hmid, hrest⟩ := Draft.exists_run_of_append hrun
  obtain rfl : mid = d := Option.some.inj (hmid.symm.trans hinit)
  obtain ⟨next, hvalue, -⟩ := Draft.exists_run_of_append hrest
  have hoccurs := (tree.value.eachOccurs hinit hopen hvalue w hw).append
    (post ++ last :: ScriptTree.tokens rest)
  rw [hscript]
  rwa [List.append_assoc] at hoccurs

end Script

end ScriptRunner
