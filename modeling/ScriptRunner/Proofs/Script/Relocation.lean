import ScriptRunner.Proofs.Script.Lines

/-!
# Reading a text at another place

Where a text stands decides where its parts are said to be, and nothing else: the machine carries
positions along and never looks at them. So every step commutes with a change of positions, and so
does a whole reading if the change agrees with how positions advance.

## Main definitions

* `Span.relocate`, `Expr.relocate`, `Statement.relocate`, `Item.relocate`, `Annotation.relocate` -
  parts of a script with changed positions, everything else as it was.
* `Position.down` - a position some lines further down.

## Main statements

* `Phase.step_relocate` - a step commutes with a change of positions.
* `readItems_relocate` - so does reading a text.
* `mapM_settle_relocate` - so does working out the literals.
-/

namespace ScriptRunner

/-- A span with changed positions. -/
def Span.relocate (f : Position → Position) (s : Span) : Span :=
  ⟨f s.start, f s.stop⟩

namespace Script

section

variable {L A : Type} (f : Position → Position)

/-- An expression with changed positions. -/
def Expr.relocate : Expr L → Expr L
  | literal value span => literal value (span.relocate f)
  | name n span => name n (span.relocate f)
  | member owner n span => member owner n (span.relocate f)
  | binary op left right span => binary op left.relocate right.relocate (span.relocate f)
  | negate operand span => negate operand.relocate (span.relocate f)

/-- A statement with changed positions. -/
def Statement.relocate : Statement L → Statement L
  | val name value span => val name (value.relocate f) (span.relocate f)
  | print value span => print (value.relocate f) (span.relocate f)
  | expression value span => expression (value.relocate f) (span.relocate f)

/-- An item with changed positions. -/
def Item.relocate : Item L A → Item L A
  | annotate target name argument span => annotate target name argument (span.relocate f)
  | statement s => statement (s.relocate f)

/-- An annotation with changed positions. -/
def Annotation.relocate (a : Annotation) : Annotation :=
  { a with span := a.span.relocate f }

theorem annotationsOf_relocate (inHeader : Bool) (items : List (Item L ScriptText)) :
    annotationsOf inHeader (items.map (Item.relocate f)) =
      (annotationsOf inHeader items).map fun a => a.relocate f := by
  induction items generalizing inHeader with
  | nil => rfl
  | cons item items ih =>
    cases item <;> simp [Item.relocate, annotationsOf, Annotation.relocate, ih]

theorem statementsOf_relocate (items : List (Item L A)) :
    statementsOf (items.map (Item.relocate f)) =
      (statementsOf items).map (Statement.relocate f) := by
  induction items with
  | nil => rfl
  | cons item items ih => cases item <;> simp [Item.relocate, statementsOf, ih]

def Token.relocate (t : Token) : Token :=
  { t with span := t.span.relocate f }

namespace Operand

def relocate (operand : Operand) : Operand :=
  ⟨operand.expr.relocate f, operand.extent.relocate f⟩

theorem behind_relocate (waiting : Option (Operator × Operand)) (operand : Operand) :
    behind (waiting.map fun (op, left) => (op, left.relocate f)) (operand.relocate f) =
      (behind waiting operand).relocate f := by
  cases waiting <;> rfl

end Operand

namespace Pending

def relocate (p : Pending) : Pending where
  comparison := p.comparison.map fun (op, left) => (op, left.relocate f)
  sum := p.sum.map fun (op, left) => (op, left.relocate f)
  product := p.product.map fun (op, left) => (op, left.relocate f)
  minuses := p.minuses.map f

variable (p : Pending) (operand : Operand)

theorem signed_relocate :
    (p.relocate f).signed (operand.relocate f) = (p.signed operand).relocate f := by
  unfold signed relocate
  induction p.minuses generalizing operand with
  | nil => rfl
  | cons start minuses ih => exact ih (operand.negate start)

theorem productWith_relocate :
    (p.relocate f).productWith (operand.relocate f) = (p.productWith operand).relocate f := by
  rw [productWith, signed_relocate]
  exact Operand.behind_relocate f _ _

theorem sumWith_relocate :
    (p.relocate f).sumWith (operand.relocate f) = (p.sumWith operand).relocate f := by
  rw [sumWith, productWith_relocate]
  exact Operand.behind_relocate f _ _

theorem whole_relocate :
    (p.relocate f).whole (operand.relocate f) = (p.whole operand).relocate f := by
  rw [whole, sumWith_relocate]
  exact Operand.behind_relocate f _ _

theorem extend_relocate (op : Operator) :
    (p.relocate f).extend (operand.relocate f) op = (p.extend operand op).map (relocate f) := by
  simp only [extend, productWith_relocate, sumWith_relocate]
  obtain ⟨comparison, sum, product, minuses⟩ := p
  cases tightness op with
  | product => rfl
  | sum => rfl
  | comparison => cases comparison <;> rfl

end Pending

def Opening.relocate : Opening → Opening
  | expression => expression
  | val start name => val (f start) name
  | print start => print (f start)

def Context.relocate (ctx : Context) : Context where
  opening := ctx.opening.relocate f
  brackets := ctx.brackets.map fun (outer, start) => (outer.relocate f, f start)
  pending := ctx.pending.relocate f

namespace Phase

def relocate : Phase → Phase
  | lineStart => lineStart
  | annotationSign start => annotationSign (f start)
  | annotationTarget start target => annotationTarget (f start) target
  | annotationColon start target => annotationColon (f start) target
  | annotationName start target name => annotationName (f start) target name
  | annotationOpen start target name => annotationOpen (f start) target name
  | annotationArgument start target name argument =>
    annotationArgument (f start) target name argument
  | annotationEnd item => annotationEnd (item.relocate f)
  | valKeyword start => valKeyword (f start)
  | valName start name => valName (f start) name
  | printKeyword start => printKeyword (f start)
  | beforeOperand ctx => beforeOperand (ctx.relocate f)
  | nameEnd ctx name span => nameEnd (ctx.relocate f) name (span.relocate f)
  | ownerDot ctx owner span => ownerDot (ctx.relocate f) owner (span.relocate f)
  | operandEnd ctx operand => operandEnd (ctx.relocate f) (operand.relocate f)
  | printEnd item => printEnd (item.relocate f)

variable (ctx : Context) (operand : Operand) (t : Token)

theorem startOperand_relocate :
    startOperand (ctx.relocate f) (t.relocate f) = (startOperand ctx t).map (relocate f) := by
  obtain ⟨terminal, text, span⟩ := t
  unfold startOperand
  dsimp only [Token.relocate]
  split <;> rfl

theorem statementOf_relocate (opening : Opening) :
    statementOf (opening.relocate f) (operand.relocate f) =
      (statementOf opening operand).map (Statement.relocate f) := by
  cases opening <;> rfl

theorem closeBracket_relocate :
    closeBracket (ctx.relocate f) (operand.relocate f) (t.relocate f) =
      (closeBracket ctx operand t).map (relocate f) := by
  obtain ⟨opening, brackets, pending⟩ := ctx
  have hwhole := pending.whole_relocate f operand
  unfold closeBracket
  dsimp only [Context.relocate]
  rw [hwhole]
  cases brackets <;> cases opening <;> rfl

/-- What a step leads to, with changed positions. -/
def relocateStep (result : Phase × Option WrittenItem) : Phase × Option WrittenItem :=
  (result.1.relocate f, result.2.map (Item.relocate f))

theorem afterOperand_relocate :
    afterOperand (ctx.relocate f) (operand.relocate f) (t.relocate f) =
      (afterOperand ctx operand t).map (relocateStep f) := by
  have hclose := closeBracket_relocate f ctx operand t
  obtain ⟨terminal, text, span⟩ := t
  unfold afterOperand
  dsimp only [Token.relocate] at hclose ⊢
  split
  case h_1 op =>
    have hextend := ctx.pending.extend_relocate f operand op
    dsimp only [Context.relocate]
    rw [hextend]
    cases ctx.pending.extend operand op <;> rfl
  case h_2 =>
    rw [hclose, Option.map_map, Option.map_map]
    rfl
  case h_3 | h_4 =>
    have hwhole := ctx.pending.whole_relocate f operand
    dsimp only [Context.relocate]
    rw [hwhole, statementOf_relocate]
    cases ctx.brackets <;> cases statementOf ctx.opening (ctx.pending.whole operand) <;> rfl
  case h_5 => rfl

/-- A step commutes with a change of positions. -/
theorem step_relocate (phase : Phase) :
    (phase.relocate f).step (t.relocate f) = (phase.step t).map (relocateStep f) := by
  have hoperand : ∀ ctx : Context, (startOperand (ctx.relocate f) (t.relocate f)).map (·, none) =
      ((startOperand ctx t).map (·, none)).map (relocateStep f) := by
    intro ctx
    rw [startOperand_relocate, Option.map_map, Option.map_map]
    rfl
  cases phase with
  | lineStart =>
    have hstart := hoperand { opening := .expression }
    obtain ⟨terminal, text, span⟩ := t
    rcases terminal with _ | m | o | k | _ | _ | _
    case mark => cases m <;> rfl
    case keyword => cases k <;> rfl
    all_goals first | rfl | exact hstart
  | beforeOperand ctx => exact hoperand ctx
  | nameEnd ctx name span =>
    have hafter := afterOperand_relocate f ctx ⟨.name name span, span⟩ t
    obtain ⟨terminal, text, span⟩ := t
    rcases terminal with _ | m | o | k | _ | _ | _
    case mark => cases m <;> first | rfl | exact hafter
    all_goals exact hafter
  | operandEnd ctx operand => exact afterOperand_relocate f ctx operand t
  | _ =>
    obtain ⟨terminal, text, span⟩ := t
    rcases terminal with _ | m | o | k | _ | _ | _
    case mark => cases m <;> rfl
    all_goals rfl

/-- What may stand next does not depend on positions. -/
theorem allows_relocate (phase : Phase) : (phase.relocate f).allows = phase.allows := by
  funext terminal
  have hstep := step_relocate f ⟨terminal, [], ⟨.first, .first⟩⟩ phase
  rw [← isSome_step _ ⟨terminal, [], Span.relocate f ⟨.first, .first⟩⟩]
  exact (congrArg Option.isSome hstep).trans Option.isSome_map

end Phase

end

section

variable {f : Position → Position}

theorem advanceAll_relocate (hf : ∀ p c, f (p.advance c) = (f p).advance c) (p : Position)
    (cs : List Char) : (f p).advanceAll cs = f (p.advanceAll cs) := by
  induction cs generalizing p with
  | nil => rfl
  | cons c cs ih => rw [Position.advanceAll_cons, ← hf, ih, Position.advanceAll_cons]

/-- What is read, with changed positions, those of faults included. -/
def relocateItems (f : Position → Position) :
    Except (SyntaxFault × Position) (List WrittenItem) →
      Except (SyntaxFault × Position) (List WrittenItem)
  | .ok items => .ok (items.map (Item.relocate f))
  | .error (fault, position) => .error (fault, f position)

/-- A text is read in the same way wherever it stands. -/
theorem readItems_relocate (hf : ∀ p c, f (p.advance c) = (f p).advance c) (phase : Phase)
    (position : Position) (cs : List Char) :
    readItems (phase.relocate f) (f position) cs =
      relocateItems f (readItems phase position cs) := by
  induction hn : cs.length using Nat.strong_induction_on generalizing phase position cs with
  | _ n ih =>
    rw [readItems_eq_readScanned, readItems_eq_readScanned phase, Phase.allows_relocate,
      advanceAll_relocate hf]
    have hle := blankRun_length_le false cs
    generalize position.advanceAll (blankRun false cs).1 = here
    generalize (blankRun false cs).2 = behind at hle
    cases hscan : scan phase.allows behind with
    | token terminal text rest =>
      have hstep := Phase.step_relocate f ⟨terminal, text, ⟨here, here.advanceAll text⟩⟩ phase
      dsimp only [Token.relocate, Span.relocate] at hstep
      rw [readScanned, readScanned, advanceAll_relocate hf, hstep]
      cases phase.step ⟨terminal, text, ⟨here, here.advanceAll text⟩⟩ with
      | none => rfl
      | some result =>
        obtain ⟨next, item⟩ := result
        have hlt := scan_shortens hscan
        have hrest := ih rest.length (by omega) next (here.advanceAll text) rest rfl
        dsimp only [Option.map_some, Phase.relocateStep]
        rw [hrest]
        cases readItems next (here.advanceAll text) rest with
        | ok items => cases item <;> rfl
        | error fault => rfl
    | unexpected terminal text => rfl
    | unknown => cases behind <;> cases phase <;> rfl

end

section

variable (f : Position → Position) (file : String)

variable [CharacterNames]

theorem Expr.settle_relocate (e : Expr Written) :
    (e.relocate f).settle file = (e.settle file).map (Expr.relocate f) := by
  induction e with
  | literal w span => simp only [Expr.relocate, settle]; cases w.settle file <;> rfl
  | name n span => rfl
  | member owner n span => simp only [Expr.relocate, settle]; cases requireFile file <;> rfl
  | binary op left right span ihleft ihright =>
    simp only [Expr.relocate, settle, ihleft, ihright]
    cases left.settle file <;> cases right.settle file <;> cases requireFile file <;> rfl
  | negate operand span ih =>
    simp only [Expr.relocate, settle, ih]
    cases operand.settle file <;> cases requireFile file <;> rfl

theorem Statement.settle_relocate (s : Statement Written) :
    (s.relocate f).settle file = (s.settle file).map (Statement.relocate f) := by
  cases s with
  | val name value span | print value span | expression value span =>
    simp only [Statement.relocate, settle, Expr.settle_relocate]
    cases value.settle file <;> cases requireFile file <;> rfl

theorem Item.settle_relocate (item : WrittenItem) :
    Item.settle file (item.relocate f) = (Item.settle file item).map (Item.relocate f) := by
  cases item with
  | annotate target name argument span =>
    simp only [Item.relocate, settle]
    cases stringContent argument <;> cases requireFile file <;> rfl
  | statement s =>
    simp only [Item.relocate, settle, Statement.settle_relocate]
    cases s.settle file <;> rfl

/-- The values of literals do not depend on their positions. -/
theorem mapM_settle_relocate (items : List WrittenItem) :
    (items.map (Item.relocate f)).mapM (Item.settle file) =
      (items.mapM (Item.settle file)).map (List.map (Item.relocate f)) := by
  induction items with
  | nil => rfl
  | cons item items ih =>
    simp only [List.map_cons, List.mapM_cons, Item.settle_relocate, ih]
    cases Item.settle file item <;> cases items.mapM (Item.settle file) <;> rfl

end

end Script

namespace Position

/-- A position some lines further down. -/
def down (lines : Nat) (p : Position) : Position :=
  ⟨p.line + lines, p.column⟩

theorem down_advance (lines : Nat) (p : Position) (c : Char) :
    (p.advance c).down lines = (p.down lines).advance c := by
  unfold advance down
  split
  · simp only [Nat.add_right_comm]
  · rfl

theorem line_advanceAll (p : Position) (cs : List Char) :
    (p.advanceAll cs).line = p.line + cs.count '\n' := by
  induction cs generalizing p with
  | nil => rfl
  | cons c cs ih =>
    rw [advanceAll_cons, ih, List.count_cons, advance]
    by_cases hc : c = '\n'
    · simp only [hc, if_true, beq_self_eq_true]
      omega
    · simp [hc]

/-- Behind a text that ends with a line a new line starts, as far down as the text has lines. -/
theorem advanceAll_of_getLast? {cs : List Char} (hcs : cs.getLast? = some '\n') :
    first.advanceAll cs = first.down (cs.count '\n') := by
  have hline := line_advanceAll first cs
  obtain ⟨init, rfl⟩ := List.getLast?_eq_some_iff.1 hcs
  rw [advanceAll_append] at hline ⊢
  rw [down, ← hline]
  rfl

end Position

end ScriptRunner
