import ScriptRunner.Proofs.Interpreter.Messages
import ScriptRunner.Proofs.Script.Integers
import ScriptRunner.Proofs.Script.SyntaxErrors

/-!
# Messages of one line

A message is put together from fixed texts, numbers, and what it quotes of a script: names, a token
or a character, and the symbols and types of an operation. None of these holds a line feed, because
the only token that does is the end of a line, and that is not quoted.

## Main definitions

* `IsLine` - a text without a line feed.
* `OperatorFault.symbol?` - the operator that a fault quotes.

## Main statements

* `FailsAt.isLine_message` - the fault of an expression.
* `isLine_message_of_parse` - the error about a text that is no script.
* `isLine_annotationWarning`, `isLine_rebindingWarning` - warnings.
-/

namespace ScriptRunner

/-- A text holds no line feed. -/
def IsLine (s : String) : Prop := '\n' ∉ s.toList

instance (s : String) : Decidable (IsLine s) := inferInstanceAs (Decidable (_ ∉ _))

section

variable {s t : String}

theorem IsLine.append (hs : IsLine s) (ht : IsLine t) : IsLine (s ++ t) := by
  rw [IsLine, String.toList_append, List.mem_append, not_or]
  exact ⟨hs, ht⟩

-- Fixed texts stand as characters here, so that it takes no decoding to see what they hold.

theorem isLine_ofList {cs : List Char} (h : '\n' ∉ cs) : IsLine (String.ofList cs) := by
  rwa [IsLine, String.toList_ofList]

theorem IsLine.behind (hs : IsLine s) {before : List Char} (h : '\n' ∉ before) :
    IsLine (String.ofList before ++ s) :=
  (isLine_ofList h).append hs

theorem IsLine.before (hs : IsLine s) {after : List Char} (h : '\n' ∉ after) :
    IsLine (s ++ String.ofList after) :=
  hs.append (isLine_ofList h)

theorem IsLine.between (hs : IsLine s) {before after : List Char}
    (h : '\n' ∉ before ∧ '\n' ∉ after) :
    IsLine (String.ofList before ++ s ++ String.ofList after) :=
  (hs.behind h.1).before h.2

end

theorem isLine_toString_char {c : Char} (h : c ≠ '\n') : IsLine (toString c) := by
  have hfree : '\n' ∉ [c] := by simpa using h.symm
  exact isLine_ofList hfree

theorem isLine_toString_nat (n : Nat) : IsLine (toString n) := by
  rw [Nat.toString_eq_ofList_toDigits]
  refine isLine_ofList fun hmem => ?_
  exact absurd ((Script.isDigits_toDigits n).2 _ hmem) (by decide)

theorem isLine_toString_int (n : Int) : IsLine (toString n) := by
  cases n with
  | ofNat n => exact isLine_toString_nat n
  | negSucc n => exact (isLine_toString_nat (n + 1)).behind (by decide)

theorem Script.WrittenAsName.isLine {name : String} (h : WrittenAsName name) : IsLine name :=
  h.not_mem (by decide)

theorem isLine_toString_location {l : Location} (h : IsLine l.file) : IsLine (toString l) := by
  have hline := isLine_toString_int l.line
  have hcolumn := isLine_toString_int l.column
  exact (((h.before (by decide)).append hline).before (by decide)).append hcolumn

theorem isLine_typeName (t : ValueType) : IsLine t.name := by
  cases t <;> exact isLine_ofList (by decide)

theorem Operator.isLine_symbol (o : Operator) : IsLine o.symbol := by
  rcases o with _ | _ | o | o
  · exact isLine_ofList (by decide)
  · exact isLine_ofList (by decide)
  · cases o <;> exact isLine_ofList (by decide)
  · cases o <;> exact isLine_ofList (by decide)

/-- The operator that a fault quotes. -/
def OperatorFault.symbol? : OperatorFault → Option String
  | undefined symbol _ _ | unknown symbol | tooLarge symbol | outsideDomain symbol => some symbol
  | divisionByZero | tooLong | notNegatable _ => none

theorem OperatorFault.isLine_message {fault : OperatorFault}
    (h : ∀ symbol ∈ fault.symbol?, IsLine symbol) : IsLine fault.message := by
  cases fault with
  | undefined symbol left right =>
    have hsymbol : IsLine ("Operator '" ++ symbol ++ "' is not defined for ") :=
      (h symbol rfl).between (by decide)
    exact ((hsymbol.append (isLine_typeName left)).before (by decide)).append
      (isLine_typeName right)
  | unknown symbol => exact (h symbol rfl).between (by decide)
  | divisionByZero => exact isLine_ofList (by decide)
  | tooLarge symbol => exact (h symbol rfl).between (by decide)
  | outsideDomain symbol => exact (h symbol rfl).between (by decide)
  | tooLong =>
    have hlimit := isLine_toString_nat intDigitLimit
    exact ((hlimit.between (by decide)).before (by decide)).behind (by decide)
  | notNegatable operand => exact (isLine_typeName operand).behind (by decide)

/-- A fault on numbers quotes the operator itself. -/
theorem ArithmeticOperator.symbol_of_onNumbers {o : ArithmeticOperator} {v w : Value}
    {fault : OperatorFault} (h : o.onNumbers v w = .error fault) :
    ∀ symbol ∈ fault.symbol?, symbol = o.symbol := by
  unfold onNumbers at h
  split at h
  · simp at h
  · split at h
    · split at h
      · simp at h
      · obtain rfl := Except.error.inj h
        rintro _ ⟨⟩
        rfl
    · obtain rfl := Except.error.inj h
      rintro _ ⟨⟩
      rfl

theorem Operator.symbol_of_applyArithmetic {o : ArithmeticOperator} {v w : Value}
    {fault : OperatorFault} (h : applyArithmetic o v w = .error fault) :
    ∀ symbol ∈ fault.symbol?, symbol = o.symbol := by
  unfold applyArithmetic at h
  split at h
  · split at h
    · simp at h
    · obtain rfl := Except.error.inj h
      rintro _ ⟨⟩
  · split at h
    · obtain rfl := Except.error.inj h
      rintro _ ⟨⟩
      rfl
    · split at h
      · obtain rfl := Except.error.inj h
        rintro _ ⟨⟩
      · exact ArithmeticOperator.symbol_of_onNumbers h

/-- The fault of an operator quotes the operator itself. -/
theorem Operator.symbol_of_apply {op : Operator} {v w : Value} {fault : OperatorFault}
    (h : op.apply v w = .error fault) : ∀ symbol ∈ fault.symbol?, symbol = op.symbol := by
  cases op with
  | equal => simp [apply] at h
  | notEqual => simp [apply] at h
  | order o =>
    rw [apply] at h
    split at h
    · simp at h
    · obtain rfl := Except.error.inj h
      rintro _ ⟨⟩
      rfl
  | arithmetic o => exact symbol_of_applyArithmetic h

theorem symbol?_of_negate {v : Value} {fault : OperatorFault} (h : negate v = .error fault) :
    fault.symbol? = none := by
  unfold negate at h
  split at h
  · simp at h
  · simp at h
  · obtain rfl := Except.error.inj h
    rfl

namespace Interpreter

open Script

variable {env : Environment} {unit : String} {e : Expr Value} {stop : Stop}

/-- An expression that breaks off at an operator has operands that the operator fails for. -/
theorem FailsAt.exists_operands (h : FailsAt env unit e stop) {fault : OperatorFault} {span : Span}
    (hstop : stop = .fault (.operator fault) span) :
    (∃ v, ScriptRunner.negate v = .error fault) ∨
      ∃ (op : Operator) (v w : Value), op.apply v w = .error fault := by
  induction h with
  | @name n span' lookup h =>
    cases lookup <;> simp [Stop.ofLookup, Stop.ofReference] at hstop
  | member h => simp [Stop.ofReference] at hstop
  | operand _ ih => exact ih hstop
  | left _ ih => exact ih hstop
  | right _ _ ih => exact ih hstop
  | @negate e span' v fault' hv h =>
    obtain ⟨hfault, -⟩ := Stop.fault.inj hstop
    obtain rfl := Fault.operator.inj hfault
    exact .inl ⟨v, h⟩
  | @apply op l r span' v w fault' hl hr h =>
    obtain ⟨hfault, -⟩ := Stop.fault.inj hstop
    obtain rfl := Fault.operator.inj hfault
    exact .inr ⟨op, v, w, h⟩

theorem FailsAt.isLine_operatorFault {fault : OperatorFault} {span : Span}
    (h : FailsAt env unit e (.fault (.operator fault) span)) : IsLine fault.message := by
  refine OperatorFault.isLine_message fun symbol hsymbol => ?_
  rcases h.exists_operands rfl with ⟨v, hnegate⟩ | ⟨op, v, w, happly⟩
  · rw [symbol?_of_negate hnegate] at hsymbol
    exact absurd hsymbol (Option.not_mem_none symbol)
  · rw [Operator.symbol_of_apply happly symbol hsymbol]
    exact op.isLine_symbol

theorem isLine_referenceFault {fault : ReferenceFault}
    (h : (Fault.reference fault).Names WrittenAsName) : IsLine fault.message := by
  cases fault with
  | unresolved name => exact (WrittenAsName.isLine h).behind (by decide)
  | unresolvedMember owner name => exact (h.1.isLine.between (by decide)).append h.2.isLine
  | notInitialized owner => exact (WrittenAsName.isLine h).between (by decide)
  | unknownOwner owner => exact (WrittenAsName.isLine h).behind (by decide)

/-- The fault of an expression from a script has a message of one line. -/
theorem FailsAt.isLine_message {fault : Fault} {span : Span}
    (h : FailsAt env unit e (.fault fault span)) (he : e.Names WrittenAsName) :
    IsLine fault.message := by
  cases fault with
  | operator fault => exact h.isLine_operatorFault
  | reference fault => exact isLine_referenceFault (h.names he rfl)

theorem isLine_report {u : ParsedUnit} (hu : IsLine u.1.name) {fault : Fault}
    (h : IsLine fault.message) (span : Span) :
    IsLine (Interruption.report u fault span).message := by
  exact (hu.before (by decide)).append h

theorem isLine_rebindingWarning {unit name : String} (hunit : IsLine unit)
    (hname : WrittenAsName name) (location : Location) :
    IsLine (rebindingWarning unit name location).message := by
  exact ((hunit.before (by decide)).append hname.isLine).before (by decide)

theorem isLine_annotationWarning {p : Program} {a : Annotation} (htarget : WrittenAsName a.target)
    (hname : WrittenAsName a.name) {d : Diagnostic} (h : annotationWarning? p a = some d) :
    IsLine d.message := by
  have hlabel : IsLine s!"@{a.target}:{a.name}" :=
    (htarget.isLine.between (by decide)).append hname.isLine
  unfold annotationWarning? at h
  split at h
  · obtain rfl := Option.some.inj h
    exact hlabel.between (by decide)
  · split at h
    · obtain rfl := Option.some.inj h
      exact hlabel.before (by decide)
    · simp at h

/-- The reports of shared names quote names and paths of units, and paths that were seen before. -/
theorem isLine_of_mem_nameReports {units : List ScriptUnit} {seen : Table String Path}
    (hunits : ∀ u ∈ units, IsLine u.name ∧ IsLine u.path.toString)
    (hseen : ∀ name path, seen.find? name = some path → IsLine path.toString) :
    ∀ d ∈ nameReports seen units, IsLine d.message := by
  induction units generalizing seen with
  | nil => simp [nameReports]
  | cons u units ih =>
    obtain ⟨⟨hname, hpath⟩, hunits⟩ := List.forall_mem_cons.1 hunits
    unfold nameReports
    split
    · refine ih hunits fun name path hfind => ?_
      rw [Table.find?_insert] at hfind
      split at hfind
      · obtain rfl := Option.some.inj hfind
        exact hpath
      · exact hseen name path hfind
    next first hfirst =>
      split
      · exact ih hunits hseen
      · refine List.forall_mem_cons.2 ⟨?_, ih hunits hseen⟩
        have hunit : IsLine ("Duplicate compilation unit '" ++ u.name ++ "': ") :=
          hname.between (by decide)
        exact ((hunit.append (hseen _ _ hfirst)).before (by decide)).append hpath

end Interpreter

namespace Script

/-- What stands where a text is at fault is quoted without a line feed: a token that is no line end,
or a character that no line end starts with. -/
theorem SyntaxFault.Describes.isLine_message {allowed : Terminal → Prop} {fault : SyntaxFault}
    {cs : List Char} (h : fault.Describes allowed cs) : IsLine fault.message := by
  cases h with
  | @token t _ text rest ht hmunch _ =>
    have htext : '\n' ∉ text := hmunch.not_mem_feed (by simpa using ht)
    exact (isLine_ofList htext).between (by decide)
  | lineEnd _ => exact isLine_ofList (by decide)
  | @character c rest hnone =>
    have hc : c ≠ '\n' := by
      rintro rfl
      exact hnone .lineEnd ['\n'] .feed ⟨rest, rfl⟩
    exact (isLine_toString_char hc).between (by decide)

theorem EscapeFault.isLine_message (fault : EscapeFault) : IsLine fault.message := by
  cases fault <;> exact isLine_ofList (by decide)

theorem LiteralFault.isLine_message (fault : LiteralFault) : IsLine fault.message := by
  cases fault with
  | tooManyDigits count =>
    have hlimit := isLine_toString_nat intDigitLimit
    have hcount := isLine_toString_nat count
    exact (hlimit.between (by decide)).append (hcount.between (by decide))
  | nul => exact isLine_ofList (by decide)
  | unterminated line => exact (isLine_toString_nat line).between (by decide)
  | escape bad line =>
    obtain ⟨fault, first, last⟩ := bad
    have hfault : IsLine (fault.message ++ " (<unknown>, line " ++ toString line ++ ")") :=
      ((fault.isLine_message.before (by decide)).append
        (isLine_toString_nat line)).before (by decide)
    have hfirst := isLine_toString_nat first
    have hlast := isLine_toString_nat last
    exact (((hfirst.between (by decide)).append hlast).before (by decide)).append hfault

theorem ContentFault.isLine_message (fault : ContentFault) : IsLine fault.message := by
  cases fault with
  | literal fault => exact fault.isLine_message
  | unnamedFile => exact isLine_ofList (by decide)

variable [CharacterNames]

theorem file_of_parse_error {file text : String} {e : ParseError}
    (h : parse file text = .error e) : e.file = file := by
  unfold parse at h
  split at h
  · obtain rfl := Except.error.inj h
    rfl
  · split at h
    · obtain rfl := Except.error.inj h
      rfl
    · simp at h

/-- The error about a text of a file that has a name of one line. -/
theorem isLine_message_of_parse {file text : String} (hfile : IsLine file) {e : ParseError}
    (h : parse file text = .error e) : IsLine e.message := by
  obtain rfl := file_of_parse_error h
  obtain ⟨file, fault⟩ := e
  cases fault with
  | malformed fault position =>
    obtain ⟨offence⟩ := nonempty_offence_of_readItems (getLast?_withLineEnd _)
      (readItems_of_malformed h rfl)
    have hplace : IsLine (toString (Location.ofPosition file position)) :=
      isLine_toString_location hfile
    exact (hplace.between (by decide)).append offence.describes.isLine_message
  | content fault => exact (hfile.between (by decide)).append fault.isLine_message

end Script

end ScriptRunner
