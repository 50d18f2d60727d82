import ScriptRunner.Proofs.Interpreter.Annotations
import ScriptRunner.Proofs.Interpreter.Reordering
import ScriptRunner.Proofs.Interpreter.Scoping
import ScriptRunner.Proofs.Script.Integers

/-!
# Integers that are printed and evaluated again

What printing shows of an integer is a script that evaluates to the integer. An integer with too
many digits is neither printed nor appended to a text: the evaluation ends with an error at the
place where that is tried. Its digits are no literal either, so what can be printed can be read and
the other way round.

## Main definitions

* `IsPrinted`, `ReadsBack` - what printing shows, and a text that evaluates to an integer.
* `Unwritable` - an integer that scripts can neither print nor append to a text nor contain.

## Main statements

* `Starts.exists_evaluate_of_value` - a root that is one expression with a value.
* `Unwritable.of_not_isWritable` - what comes of integers with too many digits.
* `readsBack_or_unwritable` - every integer is of one kind or the other.
-/

namespace ScriptRunner.Interpreter

open Script

/-- A print statement shows an integer as a line, in every unit and state. -/
def IsPrinted (n : Int) (line : String) : Prop :=
  ∀ unit file s e span, eval s.environment unit e = .ok (.int n) →
    execute unit file s (.print e span) = .ok (s.print line, none)

theorem isPrinted_intText {n : Int} (h : IsWritable n) : IsPrinted n (intText n) := by
  intro unit file s e span he
  simp [execute, he, Value.text?, h, bind, Except.bind, pure, Except.pure]

section

variable [CharacterNames]

/-- A text evaluates to an integer if it is the text of a root: it is a script, and the evaluation
is successful with the integer as its value, provided that it gets to the root at all. A root
without imports is always reached. -/
structure ReadsBack (line : String) (n : Int) : Prop where
  parses : ∀ file, file ≠ "" → ∃ p, parse file line = .ok p
  evaluates : ∀ r : Request, (r.units.map (·.name)).Nodup → r.root.text = line →
    r.root.path.toString ≠ "" → (r.imports = [] ∨ ∃ before u p, Starts r before u [] p) →
    ∃ e, (evaluate r).outcome = .ok e ∧ e.success = true ∧ e.value = some (.int n)

section

variable {r : Request} {before : List ParsedUnit} {u : ParsedUnit} {p : Progress}

/-- The last unit of a request is its root. -/
theorem Starts.unit_eq_root (h : Starts r before u [] p) : u.1 = r.root := by
  have hunits := h.scripts.map_unit
  rw [List.map_append, Request.units] at hunits
  exact List.singleton_inj.1 (List.append_inj' hunits rfl).2

/-- A root that is one expression with a value makes the evaluation successful, if it starts. -/
theorem Starts.exists_evaluate_of_value (h : Starts r before u [] p)
    (hnames : (r.units.map (·.name)).Nodup) {file : String} {e : Expr Value} {span : Span}
    (hparse : parse r.root.path.toString r.root.text = .ok ⟨file, [], [.expression e span]⟩)
    {v : Value} (hvalue : ∀ env unit, eval env unit e = .ok v) :
    ∃ e, (evaluate r).outcome = .ok e ∧ e.success = true ∧ e.value = some v := by
  have hprogram := h.scripts.parse_eq (List.mem_append_right _ List.mem_cons_self)
  rw [h.unit_eq_root, hparse] at hprogram
  have hstatements : u.2.statements = [.expression e span] := by rw [← Except.ok.inj hprogram]
  obtain ⟨q, hq⟩ := exists_perform_start (h.new hnames)
  have hrun : performAll p (tasksOf u) = .ok (q.1, some v) := by
    rw [tasksOf, hstatements, performAll_cons_of_ok hq]
    exact performAll_cons_of_ok (perform_expression_eq_ok.2 ⟨v, hvalue _ _, rfl⟩) []
  have hall : performAll (startState r (before ++ [u]), none) ((before ++ [u]).flatMap tasksOf) =
      .ok (q.1, some v) := by
    rw [List.flatMap_append, List.flatMap_singleton, performAll_append_of_ok h.performed, hrun]
  have heval := evaluate_of_performAll hnames h.scripts hall
  have he := congrArg Traced.outcome heval
  exact ⟨_, he, (success_iff_performAll hnames h.scripts he).2 ⟨_, hall⟩, rfl⟩

/-- A root without imports starts if it is a script. -/
theorem exists_starts_of_imports_eq_nil (himports : r.imports = []) {program : Program}
    (hparse : parse r.root.path.toString r.root.text = .ok program) :
    Starts r [] (r.root, program) [] (startState r [(r.root, program)], none) := by
  refine ⟨?_, rfl⟩
  rw [AreScripts, Request.units, himports]
  simp [readUnits, hparse]

end

theorem readsBack_intText {n : Int} (h : IsWritable n) : ReadsBack (intText n) n where
  parses := by
    intro file hfile
    obtain ⟨e, span, hparse, -⟩ := exists_parse_intText hfile h
    exact ⟨_, hparse⟩
  evaluates := by
    intro r hnames htext hpath hreached
    obtain ⟨e, span, hparse, hform⟩ := exists_parse_intText hpath h
    rw [← htext] at hparse
    have hvalue : ∀ env unit, eval env unit e = .ok (.int n) := by
      intro env unit
      obtain rfl | ⟨inner, rfl⟩ := hform
      · rfl
      · simp [eval, negate, bind, Except.bind, Except.mapError]
    rcases hreached with himports | ⟨before, u, p, hstarts⟩
    · exact (exists_starts_of_imports_eq_nil himports hparse).exists_evaluate_of_value hnames hparse
        hvalue
    · exact hstarts.exists_evaluate_of_value hnames hparse hvalue

/-- The error of a unit at a place where an integer with too many digits should be written. -/
def cannotRender (u : ParsedUnit) (span : Span) : Diagnostic :=
  ⟨.error, s!"{u.1.name}: " ++ s!"Cannot render value: {tooLongMessage}",
    some (.ofSpan u.1.path.toString span)⟩

/-- An evaluation ends with an error, and nothing is left but what has been done before. -/
structure EndsWith (r : Request) (q : Progress) (d : Diagnostic) (e : Evaluation) : Prop where
  outcome : (evaluate r).outcome = .ok e
  diagnostics : e.diagnostics = q.1.diagnostics ++ [d]
  output : e.output = q.1.output
  success : e.success = false

/-- An integer that scripts can neither print nor append to a text, and whose digits they cannot
contain. The printed integer itself would be no script. -/
structure Unwritable (n : Int) : Prop where
  print : ∀ r before u after q e span, (r.units.map (·.name)).Nodup →
    ArrivesAt r before u after (.print e span) q →
    eval q.1.environment u.1.name e = .ok (.int n) →
    ∃ e, EndsWith r q (cannotRender u span) e
  append : ∀ r before u after st q left right span s, (r.units.map (·.name)).Nodup →
    ArrivesAt r before u after st q →
    Evaluates q.1.environment u.1.name st.body (.binary (.arithmetic .add) left right span) →
    eval q.1.environment u.1.name left = .ok (.string s) →
    eval q.1.environment u.1.name right = .ok (.int n) →
    ∃ e, EndsWith r q (cannotRender u span) e
  literal : ∀ (r : Request) u tokens t, (r.units.map (·.name)).Nodup → u ∈ r.units →
    Lexes [] .first (withLineEnd u.text.toList) tokens → t ∈ tokens → t.terminal = .number →
    t.text = Nat.toDigits 10 n.natAbs →
    ∃ error e, parse u.path.toString u.text = .error error ∧ (evaluate r).outcome = .ok e ∧
      ⟨.error, error.message, error.location⟩ ∈ e.diagnostics ∧ e.success = false
  whole : ∀ file, ∃ error, parse file (intText n) = .error error

section

variable {r : Request} {before after : List ParsedUnit} {u : ParsedUnit} {st : Statement Value}
  {q : Progress}

/-- A statement that stops at a fault of an operator ends the evaluation with an error at the place
of the operator. -/
theorem ArrivesAt.exists_endsWith (h : ArrivesAt r before u after st q)
    (hnames : (r.units.map (·.name)).Nodup) {fault : OperatorFault} {span : Span}
    (hstop : (Task.statement u st).perform q.1 = .error (.ofOperator span fault)) :
    ∃ e, EndsWith r q ⟨.error, s!"{u.1.name}: " ++ fault.message,
      some (.ofSpan u.1.path.toString span)⟩ e := by
  obtain ⟨value, heval⟩ := h.exists_evaluate_of_stop hnames hstop
  have hreport : Interruption.report u (.operator fault) span =
      ⟨.error, s!"{u.1.name}: " ++ fault.message, some (.ofSpan u.1.path.toString span)⟩ := by
    rw [Interruption.report, h.scripts.file_eq (List.mem_append_right _ List.mem_cons_self)]
    rfl
  rw [hreport] at heval
  refine ⟨_, congrArg Traced.outcome heval, rfl, rfl, ?_⟩
  simp [Evaluation.success, State.report, hasFailure, Severity.isFailure]

end

namespace Unwritable

/-- Integers with too many digits are neither printed nor appended, and they are no literals. -/
theorem of_not_isWritable {n : Int} (h : ¬ IsWritable n) : Unwritable n where
  print := by
    intro r before u after q e span hnames harrives he
    have htext : (Value.int n).text? = none := (Value.text?_eq_none_iff _).2 ⟨n, rfl, h⟩
    have hstop : (Task.statement u (.print e span)).perform q.1 =
        .error (.ofOperator span .tooLong) := by
      simp [Task.perform, execute, he, htext, bind, Except.bind]
    exact harrives.exists_endsWith hnames hstop
  append := by
    intro r before u after st q left right span s hnames harrives hpart hleft hright
    have htext : (Value.int n).text? = none := (Value.text?_eq_none_iff _).2 ⟨n, rfl, h⟩
    have hfault : Operator.apply (.arithmetic .add) (.string s) (.int n) = .error .tooLong := by
      simp [Operator.apply, Operator.applyArithmetic, htext]
    exact harrives.exists_endsWith hnames
      (perform_of_failsAt (hpart.failsAt (.apply hleft hright hfault)))
  literal := by
    intro r u tokens t hnames hu hlexes ht hnumber hdigits
    obtain ⟨error, herror⟩ := exists_parse_eq_error_of_digits u.path.toString hlexes ht hnumber h
      hdigits
    obtain ⟨e, he, hmem⟩ := exists_parseReport_mem hnames hu herror
    refine ⟨error, e, herror, he, hmem, ?_⟩
    rw [Evaluation.success, hasFailure, List.any_eq_true.2 ⟨_, hmem, rfl⟩]
    rfl
  whole file := ⟨_, parse_intText_eq_error file h⟩

end Unwritable

/-- Every integer is of one of two kinds. If it has at most 4300 decimal digits, the sign aside,
then the line that printing shows evaluates to it. Otherwise it can be neither printed nor appended
to a text, and its digits can be in no script. Integers that scripts contain as literals are of the
first kind. -/
theorem readsBack_or_unwritable (n : Int) :
    ((Nat.toDigits 10 n.natAbs).length ≤ intDigitLimit →
      IsPrinted n (intText n) ∧ ReadsBack (intText n) n) ∧
    (intDigitLimit < (Nat.toDigits 10 n.natAbs).length → Unwritable n) ∧
    ∀ text, numberValue text = .ok (.int n) →
      (Nat.toDigits 10 n.natAbs).length ≤ intDigitLimit := by
  rw [← Nat.not_le, ← isWritable_iff]
  refine ⟨fun h => ⟨isPrinted_intText h, readsBack_intText h⟩, Unwritable.of_not_isWritable, ?_⟩
  intro text htext
  exact isWritable_of_numberValue htext

/-- A root without imports. -/
def alone (text : String) : Request where
  root := ⟨.ofString "/w/scripts/main.custom.kts", "Main", text⟩
  imports := []
  dependencies := .ofList [("Main", [])]

end

attribute [local instance] CharacterNames.none

/-- A negative integer, and the least one with too many digits, which a script can compute from a
literal but not print. -/
theorem readsBack_alone :
    (∃ e, (evaluate (alone "-7")).outcome = .ok e ∧ e.success = true ∧
      e.value = some (.int (-7))) ∧
    Unwritable (tenPow 4300) ∧
    (evaluate (alone ("val a = 10000000000000000000000000000000000000000000\n" ++
        "val b = a * a * a * a * a * a * a * a * a * a\n" ++
        "println(b * b * b * b * b * b * b * b * b * b)\n"))).outcome.toOption.map
      (fun e => (e.output, e.diagnostics.map (·.message))) =
        some ([], ["Main: Cannot render value: " ++ tooLongMessage]) := by
  have hshort : (Nat.toDigits 10 (-7 : Int).natAbs).length ≤ intDigitLimit := by decide
  have hlong : intDigitLimit < (Nat.toDigits 10 (tenPow 4300 : Int).natAbs).length := by
    rw [← Nat.not_le, ← isWritable_iff]
    decide +kernel
  obtain ⟨-, hreads⟩ := (readsBack_or_unwritable (-7)).1 hshort
  refine ⟨?_, (readsBack_or_unwritable (tenPow 4300)).2.1 hlong, by decide +kernel⟩
  exact hreads.evaluates (alone "-7") (by decide) (by decide +kernel) (by decide +kernel) (.inl rfl)

end ScriptRunner.Interpreter
