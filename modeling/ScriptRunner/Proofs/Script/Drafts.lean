import ScriptRunner.Proofs.Script.Grammar

/-!
# Derivations in the making

The machine that reads a script keeps no derivation, only what is needed of the syntax tree. Here
the same machine runs on parts of derivations. Its lines lose nothing of the tokens, and the machine
without derivations follows each of its steps.

## Main definitions

* `PendingTree`, `ContextTree`, `Line` - what has been read of a line, as parts of derivations.
* `Line.step` - the machine on derivations.
* `Line.phase` - what the machine without derivations knows of a line.

## Main statements

* `Line.step_phase` - the machine without derivations takes the same steps.
* `Line.tokens_of_step` - a step adds its token.
-/

namespace ScriptRunner.Script

/-- An operator with its left operand that waits for the right one. -/
structure Waiting (l : Level) (t : Tightness) where
  left : ExprTree l
  op : OperatorOf t
  sign : Leaf

namespace Waiting

variable {l : Level} {t : Tightness}

def tokens (w : Waiting l t) : List Token :=
  w.left.tokens ++ [w.sign.as (.operator w.op)]

/-- The operator and the operand that a derivation determines. -/
def pair (w : Waiting l t) : Operator × Operand :=
  (w.op, w.left.operand)

end Waiting

/-- What waits for the next operand, as derivations; the minus signs before it, the last one
first. -/
structure PendingTree where
  comparison : Option (Waiting .sum .comparison) := none
  sum : Option (Waiting .sum .sum) := none
  product : Option (Waiting .product .product) := none
  minuses : List Leaf := []

namespace PendingTree

/-- An operand with its minus signs. -/
def signed (p : PendingTree) (a : ExprTree .atom) : ExprTree .unary :=
  p.minuses.foldl (fun u minus => .negate minus u) (.ofAtom a)

/-- The product that ends with an operand. -/
def productWith (p : PendingTree) (a : ExprTree .atom) : ExprTree .product :=
  match p.product with
  | none => .ofUnary (p.signed a)
  | some w => .product w.left w.op w.sign (p.signed a)

/-- The sum that ends with an operand. -/
def sumWith (p : PendingTree) (a : ExprTree .atom) : ExprTree .sum :=
  match p.sum with
  | none => .ofProduct (p.productWith a)
  | some w => .sum w.left w.op w.sign (p.productWith a)

/-- The whole expression that ends with an operand. -/
def whole (p : PendingTree) (a : ExprTree .atom) : ExprTree .expr :=
  match p.comparison with
  | none => .ofSum (p.sumWith a)
  | some w => .comparison w.left w.op w.sign (p.sumWith a)

/-- What waits after an operator behind an operand, if the operator may stand there. -/
def extend (p : PendingTree) (a : ExprTree .atom) (op : Operator) (sign : Leaf) :
    Option PendingTree :=
  match h : tightness op with
  | .product => some { p with product := some ⟨p.productWith a, ⟨op, h⟩, sign⟩, minuses := [] }
  | .sum => some { comparison := p.comparison, sum := some ⟨p.sumWith a, ⟨op, h⟩, sign⟩ }
  | .comparison =>
    match p.comparison with
    | none => some { comparison := some ⟨p.sumWith a, ⟨op, h⟩, sign⟩ }
    | some _ => none

def tokens (p : PendingTree) : List Token :=
  p.comparison.toList.flatMap Waiting.tokens ++ p.sum.toList.flatMap Waiting.tokens ++
    p.product.toList.flatMap Waiting.tokens ++ p.minuses.reverse.map (·.as .minus)

/-- What waits without its derivation. -/
def pending (p : PendingTree) : Pending where
  comparison := p.comparison.map Waiting.pair
  sum := p.sum.map Waiting.pair
  product := p.product.map Waiting.pair
  minuses := p.minuses.map (·.span.start)

@[simp] theorem pending_empty : pending {} = {} := rfl

@[simp] theorem tokens_empty : tokens {} = [] := rfl

@[simp] theorem tokens_signed (p : PendingTree) (a : ExprTree .atom) :
    (p.signed a).tokens = p.minuses.reverse.map (·.as .minus) ++ a.tokens := by
  have hfold : ∀ (minuses : List Leaf) (u : ExprTree .unary),
      (minuses.foldl (fun u minus => ExprTree.negate minus u) u).tokens =
        minuses.reverse.map (·.as .minus) ++ u.tokens := by
    intro minuses
    induction minuses with
    | nil => simp
    | cons minus minuses ih => simp [ih, ExprTree.tokens]
  exact hfold p.minuses (.ofAtom a)

@[simp] theorem tokens_productWith (p : PendingTree) (a : ExprTree .atom) :
    (p.productWith a).tokens = p.product.toList.flatMap Waiting.tokens ++
      (p.minuses.reverse.map (·.as .minus) ++ a.tokens) := by
  cases h : p.product <;> simp [productWith, h, ExprTree.tokens, Waiting.tokens]

@[simp] theorem tokens_sumWith (p : PendingTree) (a : ExprTree .atom) :
    (p.sumWith a).tokens = p.sum.toList.flatMap Waiting.tokens ++ (p.productWith a).tokens := by
  cases h : p.sum <;> simp [sumWith, h, ExprTree.tokens, Waiting.tokens]

/-- An expression has the tokens of what waited for its last operand, and those of the operand. -/
@[simp] theorem tokens_whole (p : PendingTree) (a : ExprTree .atom) :
    (p.whole a).tokens = p.tokens ++ a.tokens := by
  cases h : p.comparison <;> simp [whole, h, tokens, ExprTree.tokens, Waiting.tokens]

theorem extend_product (p : PendingTree) (a : ExprTree .atom) (op : OperatorOf .product)
    (sign : Leaf) : p.extend a op sign =
      some { p with product := some ⟨p.productWith a, op, sign⟩, minuses := [] } := by
  unfold extend
  split
  · rfl
  next h => exact absurd (op.2.symm.trans h) (by simp)
  next h => exact absurd (op.2.symm.trans h) (by simp)

theorem extend_sum (p : PendingTree) (a : ExprTree .atom) (op : OperatorOf .sum) (sign : Leaf) :
    p.extend a op sign =
      some { comparison := p.comparison, sum := some ⟨p.sumWith a, op, sign⟩ } := by
  unfold extend
  split
  next h => exact absurd (op.2.symm.trans h) (by simp)
  · rfl
  next h => exact absurd (op.2.symm.trans h) (by simp)

theorem extend_comparison (p : PendingTree) (a : ExprTree .atom) (op : OperatorOf .comparison)
    (sign : Leaf) (hnone : p.comparison = none) :
    p.extend a op sign = some { comparison := some ⟨p.sumWith a, op, sign⟩ } := by
  unfold extend
  split
  next h => exact absurd (op.2.symm.trans h) (by simp)
  next h => exact absurd (op.2.symm.trans h) (by simp)
  · rw [hnone]

theorem tokens_extend {p next : PendingTree} {a : ExprTree .atom} {op : Operator} {sign : Leaf}
    (h : p.extend a op sign = some next) :
    next.tokens = p.tokens ++ a.tokens ++ [sign.as (.operator op)] := by
  unfold extend at h
  split at h
  · obtain rfl := Option.some.inj h
    simp [tokens, Waiting.tokens]
  · obtain rfl := Option.some.inj h
    simp [tokens, Waiting.tokens]
  · split at h
    next hnone =>
      obtain rfl := Option.some.inj h
      simp [tokens, Waiting.tokens, hnone]
    · simp at h

@[simp] theorem operand_signed (p : PendingTree) (a : ExprTree .atom) :
    (p.signed a).operand = p.pending.signed a.operand := by
  have hfold : ∀ (minuses : List Leaf) (u : ExprTree .unary),
      (minuses.foldl (fun u minus => ExprTree.negate minus u) u).operand =
        (minuses.map (·.span.start)).foldl Operand.negate u.operand := by
    intro minuses
    induction minuses with
    | nil => simp
    | cons minus minuses ih => simp [ih, ExprTree.operand]
  exact hfold p.minuses (.ofAtom a)

@[simp] theorem operand_productWith (p : PendingTree) (a : ExprTree .atom) :
    (p.productWith a).operand = p.pending.productWith a.operand := by
  have hproduct : p.pending.product = p.product.map Waiting.pair := rfl
  cases h : p.product <;>
    simp [productWith, Pending.productWith, hproduct, h, ExprTree.operand, Operand.behind,
      Waiting.pair]

@[simp] theorem operand_sumWith (p : PendingTree) (a : ExprTree .atom) :
    (p.sumWith a).operand = p.pending.sumWith a.operand := by
  have hsum : p.pending.sum = p.sum.map Waiting.pair := rfl
  cases h : p.sum <;>
    simp [sumWith, Pending.sumWith, hsum, h, ExprTree.operand, Operand.behind, Waiting.pair]

/-- The whole expression is what the machine without derivations makes of it. -/
@[simp] theorem operand_whole (p : PendingTree) (a : ExprTree .atom) :
    (p.whole a).operand = p.pending.whole a.operand := by
  have hcomparison : p.pending.comparison = p.comparison.map Waiting.pair := rfl
  cases h : p.comparison <;>
    simp [whole, Pending.whole, hcomparison, h, ExprTree.operand, Operand.behind, Waiting.pair]

theorem pending_extend (p : PendingTree) (a : ExprTree .atom) (op : Operator) (sign : Leaf) :
    p.pending.extend a.operand op = (p.extend a op sign).map pending := by
  unfold extend
  split
  next h => simp [Pending.extend, h, pending, Waiting.pair]
  next h => simp [Pending.extend, h, pending, Waiting.pair]
  next h =>
    cases hc : p.comparison <;> simp [Pending.extend, h, hc, pending, Waiting.pair]

end PendingTree

/-- The statement that a growing expression belongs to, as a derivation. -/
inductive OpeningTree where
  | expression
  | val (keyword name assign : Leaf)
  | print (keyword opening : Leaf)

namespace OpeningTree

def tokens : OpeningTree → List Token
  | expression => []
  | val keyword name assign =>
    [keyword.as (.keyword .val), name.as .name, assign.as (.mark .assign)]
  | print keyword opening => [keyword.as (.keyword .println), opening.as (.mark .openParen)]

/-- The opening without its derivation. -/
def opening : OpeningTree → Opening
  | expression => .expression
  | val keyword name _ => .val keyword.span.start name.name
  | print keyword _ => .print keyword.span.start

/-- The statement that ends with its expression, if it may end there. -/
def statement? : OpeningTree → ExprTree .expr → Option StatementTree
  | expression, value => some (.expression value)
  | val keyword name assign, value => some (.val keyword name assign value)
  | print _ _, _ => none

end OpeningTree

/-- A growing expression as a derivation: what waits outside each open bracket together with the
bracket, the innermost first, and what waits inside. -/
structure ContextTree where
  opening : OpeningTree
  brackets : List (PendingTree × Leaf) := []
  pending : PendingTree := {}

namespace ContextTree

def tokens (ctx : ContextTree) : List Token :=
  ctx.opening.tokens ++
    ctx.brackets.reverse.flatMap (fun b => b.1.tokens ++ [b.2.as (.mark .openParen)]) ++
    ctx.pending.tokens

/-- The growing expression without its derivation. -/
def context (ctx : ContextTree) : Context where
  opening := ctx.opening.opening
  brackets := ctx.brackets.map fun b => (b.1.pending, b.2.span.start)
  pending := ctx.pending.pending

end ContextTree

/-- What has been read of the current line, as parts of derivations. -/
inductive Line where
  | start
  | annotationSign (sign : Leaf)
  | annotationTarget (sign target : Leaf)
  | annotationColon (sign target colon : Leaf)
  | annotationName (sign target colon name : Leaf)
  | annotationOpen (sign target colon name opening : Leaf)
  | annotationArgument (sign target colon name opening argument : Leaf)
  | annotationEnd (sign target colon name opening argument closing : Leaf)
  | valKeyword (keyword : Leaf)
  | valName (keyword name : Leaf)
  | printKeyword (keyword : Leaf)
  | beforeOperand (ctx : ContextTree)
  | ownerDot (ctx : ContextTree) (owner dot : Leaf)
  | operandEnd (ctx : ContextTree) (operand : ExprTree .atom)
  | printEnd (keyword opening : Leaf) (value : ExprTree .expr) (closing : Leaf)

namespace Line

def tokens : Line → List Token
  | start => []
  | annotationSign sign => [sign.as (.mark .atSign)]
  | annotationTarget sign target => [sign.as (.mark .atSign), target.as .name]
  | annotationColon sign target colon =>
    [sign.as (.mark .atSign), target.as .name, colon.as (.mark .colon)]
  | annotationName sign target colon name =>
    [sign.as (.mark .atSign), target.as .name, colon.as (.mark .colon), name.as .name]
  | annotationOpen sign target colon name opening =>
    [sign.as (.mark .atSign), target.as .name, colon.as (.mark .colon), name.as .name,
      opening.as (.mark .openParen)]
  | annotationArgument sign target colon name opening argument =>
    [sign.as (.mark .atSign), target.as .name, colon.as (.mark .colon), name.as .name,
      opening.as (.mark .openParen), argument.as .string]
  | annotationEnd sign target colon name opening argument closing =>
    [sign.as (.mark .atSign), target.as .name, colon.as (.mark .colon), name.as .name,
      opening.as (.mark .openParen), argument.as .string, closing.as (.mark .closeParen)]
  | valKeyword keyword => [keyword.as (.keyword .val)]
  | valName keyword name => [keyword.as (.keyword .val), name.as .name]
  | printKeyword keyword => [keyword.as (.keyword .println)]
  | beforeOperand ctx => ctx.tokens
  | ownerDot ctx owner dot => ctx.tokens ++ [owner.as .name, dot.as (.mark .dot)]
  | operandEnd ctx operand => ctx.tokens ++ operand.tokens
  | printEnd keyword opening value closing =>
    (StatementTree.print keyword opening value closing).tokens

/-- What the machine without derivations knows of a line. -/
def phase : Line → Phase
  | start => .lineStart
  | annotationSign sign => .annotationSign sign.span.start
  | annotationTarget sign target => .annotationTarget sign.span.start target.name
  | annotationColon sign target _ => .annotationColon sign.span.start target.name
  | annotationName sign target _ name =>
    .annotationName sign.span.start target.name name.name
  | annotationOpen sign target _ name _ =>
    .annotationOpen sign.span.start target.name name.name
  | annotationArgument sign target _ name _ argument =>
    .annotationArgument sign.span.start target.name name.name argument.text
  | annotationEnd sign target _ name _ argument closing =>
    .annotationEnd (.annotate target.name name.name argument.text
      ⟨sign.span.start, closing.span.stop⟩)
  | valKeyword keyword => .valKeyword keyword.span.start
  | valName keyword name => .valName keyword.span.start name.name
  | printKeyword keyword => .printKeyword keyword.span.start
  | beforeOperand ctx => .beforeOperand ctx.context
  | ownerDot ctx owner _ => .ownerDot ctx.context owner.name owner.span
  | operandEnd ctx (.name leaf) => .nameEnd ctx.context leaf.name leaf.span
  | operandEnd ctx a => .operandEnd ctx.context a.operand
  | printEnd keyword opening value closing =>
    .printEnd (.statement (StatementTree.print keyword opening value closing).statement)

/-- The line after a token where an operand has to follow. -/
def startOperand (ctx : ContextTree) (t : Token) : Option Line :=
  match t.terminal with
  | .number => some (.operandEnd ctx (.number t.leaf))
  | .string => some (.operandEnd ctx (.string t.leaf))
  | .keyword (.truth b) => some (.operandEnd ctx (.truth b t.leaf))
  | .name => some (.operandEnd ctx (.name t.leaf))
  | .operator (.arithmetic .subtract) =>
    let minuses := t.leaf :: ctx.pending.minuses
    some (.beforeOperand { ctx with pending := { ctx.pending with minuses := minuses } })
  | .mark .openParen =>
    let brackets := (ctx.pending, t.leaf) :: ctx.brackets
    some (.beforeOperand { ctx with brackets := brackets, pending := {} })
  | _ => none

/-- The line after a closing bracket behind an operand. -/
def closeBracket (ctx : ContextTree) (a : ExprTree .atom) (closing : Leaf) : Option Line :=
  let inner := ctx.pending.whole a
  match ctx.brackets, ctx.opening with
  | (outer, opening) :: brackets, _ =>
    some (.operandEnd { ctx with brackets := brackets, pending := outer }
      (.bracket opening inner closing))
  | [], .print keyword opening => some (.printEnd keyword opening inner closing)
  | [], _ => none

/-- The statement that ends behind an operand, if it may end there. -/
def endStatement (ctx : ContextTree) (a : ExprTree .atom) : Option StatementTree :=
  match ctx.brackets with
  | [] => ctx.opening.statement? (ctx.pending.whole a)
  | _ :: _ => none

/-- The line after a token behind an operand, and the part that the token completes. -/
def afterOperand (ctx : ContextTree) (a : ExprTree .atom) (t : Token) :
    Option (Line × Option Part) :=
  match t.terminal with
  | .operator op =>
    (ctx.pending.extend a op t.leaf).map fun pending =>
      (.beforeOperand { ctx with pending := pending }, none)
  | .mark .closeParen => (closeBracket ctx a t.leaf).map (·, none)
  | .lineEnd => (endStatement ctx a).map fun st => (.start, some (.line st t.leaf))
  | .mark .semicolon => (endStatement ctx a).map fun st => (.start, some (.segment st t.leaf))
  | _ => none

/-- The line after a token and the part that the token completes, or nothing if the token may not
stand there. -/
def step (line : Line) (t : Token) : Option (Line × Option Part) :=
  match line, t.terminal with
  | start, .lineEnd => some (start, some (.blank t.leaf))
  | start, .mark .atSign => some (annotationSign t.leaf, none)
  | start, .keyword .val => some (valKeyword t.leaf, none)
  | start, .keyword .println => some (printKeyword t.leaf, none)
  | start, _ => (startOperand { opening := .expression } t).map (·, none)
  | annotationSign sign, .name => some (annotationTarget sign t.leaf, none)
  | annotationTarget sign target, .mark .colon => some (annotationColon sign target t.leaf, none)
  | annotationColon sign target colon, .name =>
    some (annotationName sign target colon t.leaf, none)
  | annotationName sign target colon name, .mark .openParen =>
    some (annotationOpen sign target colon name t.leaf, none)
  | annotationOpen sign target colon name opening, .string =>
    some (annotationArgument sign target colon name opening t.leaf, none)
  | annotationArgument sign target colon name opening argument, .mark .closeParen =>
    some (annotationEnd sign target colon name opening argument t.leaf, none)
  | annotationEnd sign target colon name opening argument closing, .lineEnd =>
    some (start, some (.annotate sign target colon name opening argument closing t.leaf))
  | valKeyword keyword, .name => some (valName keyword t.leaf, none)
  | valName keyword name, .mark .assign =>
    some (beforeOperand { opening := .val keyword name t.leaf }, none)
  | printKeyword keyword, .mark .openParen =>
    some (beforeOperand { opening := .print keyword t.leaf }, none)
  | beforeOperand ctx, _ => (startOperand ctx t).map (·, none)
  | operandEnd ctx (.name owner), .mark .dot => some (ownerDot ctx owner t.leaf, none)
  | operandEnd ctx a, _ => afterOperand ctx a t
  | ownerDot ctx owner dot, .name => some (operandEnd ctx (.member owner dot t.leaf), none)
  | printEnd keyword opening value closing, .lineEnd =>
    some (start, some (.line (.print keyword opening value closing) t.leaf))
  | printEnd keyword opening value closing, .mark .semicolon =>
    some (start, some (.segment (.print keyword opening value closing) t.leaf))
  | _, _ => none

variable {line next : Line} {ctx : ContextTree} {a : ExprTree .atom} {t : Token}
  {part : Option Part}

theorem tokens_of_startOperand (h : startOperand ctx t = some next) :
    next.tokens = ctx.tokens ++ [t] := by
  unfold startOperand at h
  split at h
  case h_7 => simp at h
  all_goals
    rename_i ht
    obtain rfl := Option.some.inj h
    simp [tokens, ContextTree.tokens, PendingTree.tokens, ExprTree.tokens, Terminal.minus,
      Token.leaf_as_eq ht]

theorem tokens_of_closeBracket (ht : t.terminal = .mark .closeParen)
    (h : closeBracket ctx a t.leaf = some next) : next.tokens = ctx.tokens ++ a.tokens ++ [t] := by
  obtain ⟨opening, brackets, pending⟩ := ctx
  cases brackets with
  | cons bracket brackets =>
    obtain rfl := Option.some.inj h
    simp [tokens, ContextTree.tokens, ExprTree.tokens, Token.leaf_as_eq ht]
  | nil =>
    cases opening with
    | print keyword bracket =>
      obtain rfl := Option.some.inj h
      simp [tokens, ContextTree.tokens, StatementTree.tokens, OpeningTree.tokens,
        Token.leaf_as_eq ht]
    | _ => simp [closeBracket] at h

theorem tokens_of_endStatement {st : StatementTree} (h : endStatement ctx a = some st) :
    st.tokens = ctx.tokens ++ a.tokens := by
  obtain ⟨opening, _ | _, pending⟩ := ctx
  · cases opening with
    | expression =>
      obtain rfl := Option.some.inj h
      simp [StatementTree.tokens, ContextTree.tokens, OpeningTree.tokens]
    | val keyword name assign =>
      obtain rfl := Option.some.inj h
      simp [StatementTree.tokens, ContextTree.tokens, OpeningTree.tokens]
    | print keyword bracket => simp [endStatement, OpeningTree.statement?] at h
  · simp [endStatement] at h

theorem tokens_of_afterOperand (h : afterOperand ctx a t = some (next, part)) :
    part.toList.flatMap Part.tokens ++ next.tokens = ctx.tokens ++ a.tokens ++ [t] := by
  unfold afterOperand at h
  split at h
  next op ht =>
    obtain ⟨pending, hpending, heq⟩ := Option.map_eq_some_iff.1 h
    obtain ⟨rfl, rfl⟩ := by simpa using heq
    simp [tokens, ContextTree.tokens, PendingTree.tokens_extend hpending, Token.leaf_as_eq ht]
  next ht =>
    obtain ⟨line, hline, heq⟩ := Option.map_eq_some_iff.1 h
    obtain ⟨rfl, rfl⟩ := by simpa using heq
    simp [tokens_of_closeBracket ht hline]
  next ht =>
    obtain ⟨st, hst, heq⟩ := Option.map_eq_some_iff.1 h
    obtain ⟨rfl, rfl⟩ := by simpa using heq
    simp [tokens, Part.tokens, tokens_of_endStatement hst, Token.leaf_as_eq ht]
  next ht =>
    obtain ⟨st, hst, heq⟩ := Option.map_eq_some_iff.1 h
    obtain ⟨rfl, rfl⟩ := by simpa using heq
    simp [tokens, Part.tokens, tokens_of_endStatement hst, Token.leaf_as_eq ht]
  · simp at h

/-- A step adds its token. -/
theorem tokens_of_step (h : line.step t = some (next, part)) :
    part.toList.flatMap Part.tokens ++ next.tokens = line.tokens ++ [t] := by
  have hoperand : ∀ {ctx : ContextTree}, (startOperand ctx t).map (·, none) = some (next, part) →
      part.toList.flatMap Part.tokens ++ next.tokens = ctx.tokens ++ [t] := by
    intro ctx hstart
    obtain ⟨line, hline, heq⟩ := Option.map_eq_some_iff.1 hstart
    obtain ⟨rfl, rfl⟩ := by simpa using heq
    simp [tokens_of_startOperand hline]
  unfold step at h
  split at h
  case h_5 => exact hoperand h
  case h_16 => exact hoperand h
  case h_18 => exact tokens_of_afterOperand h
  case h_22 => simp at h
  all_goals
    rename_i ht
    obtain ⟨rfl, rfl⟩ := by simpa using h
    simp [tokens, Part.tokens, ContextTree.tokens, OpeningTree.tokens, ExprTree.tokens,
      Token.leaf_as_eq ht]

theorem startOperand_phase (ctx : ContextTree) (t : Token) :
    Phase.startOperand ctx.context t = (startOperand ctx t).map phase := by
  obtain ⟨terminal, text, span⟩ := t
  rcases terminal with _ | m | o | k | _ | _ | _
  case mark => cases m <;> rfl
  case operator => rcases o with _ | _ | o | o <;> first | rfl | cases o <;> rfl
  case keyword => cases k <;> rfl
  all_goals rfl

theorem statement?_opening (opening : OpeningTree) (value : ExprTree .expr) :
    Phase.statementOf opening.opening value.operand =
      (opening.statement? value).map StatementTree.statement := by
  cases opening <;> rfl

theorem closeBracket_phase (ctx : ContextTree) (a : ExprTree .atom) (t : Token) :
    Phase.closeBracket ctx.context a.operand t = (closeBracket ctx a t.leaf).map phase := by
  obtain ⟨opening, brackets, pending⟩ := ctx
  cases brackets with
  | cons bracket brackets =>
    simp [Phase.closeBracket, closeBracket, ContextTree.context, phase, ExprTree.operand,
      Token.leaf]
  | nil =>
    cases opening <;>
      simp [Phase.closeBracket, closeBracket, ContextTree.context, phase, OpeningTree.opening,
        StatementTree.statement, Token.leaf]

/-- The end of a statement behind an operand, without derivations. -/
theorem endStatement_phase (ctx : ContextTree) (a : ExprTree .atom) {t : Token}
    (ht : t.terminal = .lineEnd ∨ t.terminal = .mark .semicolon) :
    Phase.afterOperand ctx.context a.operand t =
      (endStatement ctx a).map fun st => (.lineStart, some (.statement st.statement)) := by
  obtain ⟨terminal, text, span⟩ := t
  obtain ⟨opening, brackets, pending⟩ := ctx
  have hstatement := statement?_opening opening (pending.whole a)
  rw [PendingTree.operand_whole] at hstatement
  cases brackets with
  | cons bracket brackets => rcases ht with rfl | rfl <;> rfl
  | nil =>
    cases h : opening.statement? (pending.whole a) <;> rcases ht with rfl | rfl <;>
      simp [Phase.afterOperand, ContextTree.context, endStatement, hstatement, h]

theorem afterOperand_phase (ctx : ContextTree) (a : ExprTree .atom) (t : Token) :
    Phase.afterOperand ctx.context a.operand t =
      (afterOperand ctx a t).map fun x => (x.1.phase, x.2.bind Part.item?) := by
  obtain ⟨terminal, text, span⟩ := t
  rcases terminal with _ | m | op | k | _ | _ | _
  case lineEnd =>
    rw [endStatement_phase ctx a (.inl rfl), afterOperand, Option.map_map]
    rfl
  case operator =>
    have hextend := PendingTree.pending_extend ctx.pending a op ⟨text, span⟩
    have hcontext : ctx.context.pending = ctx.pending.pending := rfl
    simp only [Phase.afterOperand, afterOperand, hcontext, hextend, Token.leaf]
    cases ctx.pending.extend a op ⟨text, span⟩ <;> rfl
  case mark =>
    cases m with
    | closeParen =>
      simp only [Phase.afterOperand, afterOperand, closeBracket_phase, Option.map_map]
      rfl
    | semicolon =>
      rw [endStatement_phase ctx a (.inr rfl), afterOperand, Option.map_map]
      rfl
    | _ => rfl
  all_goals rfl

/-- The machine without derivations takes the same steps and completes the same items. -/
theorem step_phase (line : Line) (t : Token) : line.phase.step t =
    (line.step t).map fun x => (x.1.phase, x.2.bind Part.item?) := by
  have hoperand : ∀ ctx : ContextTree, (Phase.startOperand ctx.context t).map (·, none) =
      ((startOperand ctx t).map (·, none)).map fun x => (x.1.phase, x.2.bind Part.item?) := by
    intro ctx
    rw [startOperand_phase, Option.map_map, Option.map_map]
    rfl
  cases line with
  | start =>
    have hstart := hoperand { opening := .expression }
    obtain ⟨terminal, text, span⟩ := t
    rcases terminal with _ | m | o | k | _ | _ | _
    case mark => cases m <;> rfl
    case keyword => cases k <;> rfl
    all_goals first | rfl | exact hstart
  | beforeOperand ctx =>
    exact hoperand ctx
  | operandEnd ctx a =>
    have hafter := afterOperand_phase ctx a t
    cases a with
    | name leaf =>
      obtain ⟨terminal, text, span⟩ := t
      rcases terminal with _ | m | o | k | _ | _ | _
      case mark => cases m <;> first | rfl | exact hafter
      all_goals exact hafter
    | _ => exact hafter
  | _ =>
    obtain ⟨terminal, text, span⟩ := t
    rcases terminal with _ | m | o | k | _ | _ | _
    case mark => cases m <;> rfl
    all_goals rfl

end Line

end ScriptRunner.Script
