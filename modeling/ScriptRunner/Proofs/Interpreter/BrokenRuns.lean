import ScriptRunner.Proofs.Compilation
import ScriptRunner.Proofs.Interpreter.Diagnostics
import ScriptRunner.Proofs.Interpreter.SharedNames

/-!
# What a run leaves behind when it breaks off

A statement with a fault has no effect, and nothing after it runs. So a run that breaks off leaves
exactly what the scripts leave that are cut off in front of the statement, and those run to their
end.

## Main definitions

* `Place` - a statement of one of several scripts, with what stands before and after it.
* `Place.scriptsBefore` - the scripts, cut off in front of the statement.
* `StopsAt` - the scripts in front of a statement run to their end, and then it has a fault.

## Main statements

* `stopsAt_iff` - a run stops at a statement where its tasks break off.
* `effects_of_evaluate` - a run that breaks off leaves the effects of the statements before.
-/

namespace ScriptRunner.Interpreter

open Script

/-- A statement of one of several scripts, with what stands before and after it. -/
structure Place (scripts : List ParsedUnit) where
  before : List ParsedUnit
  unit : ParsedUnit
  after : List ParsedUnit
  init : List (Statement Value)
  statement : Statement Value
  rest : List (Statement Value)
  scripts_eq : scripts = before ++ unit :: after
  statements_eq : unit.2.statements = init ++ statement :: rest

namespace Place

variable {scripts : List ParsedUnit} (place : Place scripts)

/-- The scripts, cut off in front of the statement. -/
def scriptsBefore : List ParsedUnit :=
  place.before ++ [(place.unit.1, { place.unit.2 with statements := place.init })]

/-- The tasks in front of the statement. -/
def tasksBefore : List Task :=
  place.before.flatMap tasksOf ++ .start place.unit :: place.init.map (.statement place.unit)

/-- The tasks behind the statement. -/
def tasksAfter : List Task :=
  place.rest.map (.statement place.unit) ++ place.after.flatMap tasksOf

theorem tasks_eq : scripts.flatMap tasksOf =
    place.tasksBefore ++ .statement place.unit place.statement :: place.tasksAfter := by
  obtain ⟨before, unit, after, init, st, rest, rfl, hstatements⟩ := place
  simp [tasksBefore, tasksAfter, tasksOf, hstatements]

/-- A unit that is cut off does the same as far as it goes. -/
theorem performAll_scriptsBefore (p : Progress) :
    performAll p (place.scriptsBefore.flatMap tasksOf) = performAll p place.tasksBefore := by
  have hunit : ∀ q : Progress,
      performAll q (tasksOf (place.unit.1, { place.unit.2 with statements := place.init })) =
        performAll q (.start place.unit :: place.init.map (.statement place.unit)) := by
    intro q
    simp only [performAll, tasksOf, List.foldlM_cons, List.foldlM_map]
    rfl
  simp only [scriptsBefore, tasksBefore, List.flatMap_append, List.flatMap_singleton,
    performAll_append, hunit]

end Place

section

variable {r : Request} {scripts : List ParsedUnit}

/-- The scripts in front of a statement run to their end without a fault, and in the state that they
leave the statement has one. -/
structure StopsAt (r : Request) (place : Place scripts) (s : State) (fault : Fault) (span : Span) :
    Prop where
  runs : ∃ value,
    runUnits (startState r scripts) none place.scriptsBefore = (s, .ok value)
  silent : hasFailure s.diagnostics = false
  stops : execute place.unit.1.name place.unit.2.file s place.statement = .error (.fault fault span)

/-- Tasks that have been performed have led to warnings only. -/
theorem hasFailure_of_performAll {q : Progress} {tasks : List Task}
    (h : performAll (startState r scripts, none) tasks = .ok q) :
    hasFailure q.1.diagnostics = false :=
  hasFailure_of_warnings fun _ hd => severity_of_extends (extends_performAll h) hd

/-- Scripts that run to their end without a fault perform all their tasks. -/
theorem runUnits_eq_ok_iff {units : List ParsedUnit} {s : State} {value : Option Value} :
    (runUnits (startState r scripts) none units = (s, .ok value) ∧
      hasFailure s.diagnostics = false) ↔
      performAll (startState r scripts, none) (units.flatMap tasksOf) = .ok (s, value) := by
  rcases runUnits_cases units (startState r scripts, none) with ⟨q, hq, hrun⟩ | ⟨i, hrun⟩
  · rw [hrun, hq]
    constructor
    · rintro ⟨heq, -⟩
      obtain ⟨rfl, hvalue⟩ := Prod.mk.inj heq
      rw [← Except.ok.inj hvalue]
    · intro heq
      obtain rfl := Except.ok.inj heq
      exact ⟨rfl, hasFailure_of_performAll hq⟩
  · rw [hrun, i.performAll_eq_error]
    refine iff_of_false ?_ (by simp)
    -- A fault would have been reported, and a wrong use has no value.
    rintro ⟨heq, hsilent⟩
    unfold Interruption.result at heq
    split at heq
    · simp at heq
    · obtain ⟨rfl, -⟩ := Prod.mk.inj heq
      simp [State.report, Interruption.report, hasFailure, Severity.isFailure] at hsilent

/-- A run stops at a statement if its tasks break off there. -/
theorem stopsAt_iff {place : Place scripts} {s : State} {fault : Fault} {span : Span} :
    StopsAt r place s fault span ↔ ∃ value,
      performAll (startState r scripts, none) place.tasksBefore = .ok (s, value) ∧
      (Task.statement place.unit place.statement).perform s = .error (.fault fault span) := by
  constructor
  · rintro ⟨⟨value, hruns⟩, hsilent, hstops⟩
    have hperformed := runUnits_eq_ok_iff.1 ⟨hruns, hsilent⟩
    rw [place.performAll_scriptsBefore] at hperformed
    exact ⟨value, hperformed, hstops⟩
  · rintro ⟨value, hperformed, hstops⟩
    rw [← place.performAll_scriptsBefore] at hperformed
    obtain ⟨hruns, hsilent⟩ := runUnits_eq_ok_iff.2 hperformed
    exact ⟨⟨value, hruns⟩, hsilent, hstops⟩

/-- A run that breaks off leaves the effects of what comes before a statement: the statement binds,
prints and warns of nothing, and the scripts after its own are not entered. All that is added is the
report of the fault. -/
structure LeavesEffects (r : Request) (place : Place scripts) (s : State) (fault : Fault)
    (span : Span) (e : Evaluation) : Prop where
  namespaces : e.namespaces = s.environment.namespaces
  output : e.output = s.output
  diagnostics : e.diagnostics = s.diagnostics ++ [Interruption.report place.unit fault span]
  warnings : s.diagnostics =
    (startState r scripts).diagnostics ++ rebindings [] place.tasksBefore
  entered : e.namespaces.keys = (place.before ++ [place.unit]).map (·.1.name)
  not_entered : ∀ u ∈ place.after, u.1.name ∉ e.namespaces.keys

theorem LeavesEffects.not_success {place : Place scripts} {s : State} {fault : Fault} {span : Span}
    {e : Evaluation} (h : LeavesEffects r place s fault span e) : e.success = false := by
  simp [Evaluation.success, h.diagnostics, hasFailure, Interruption.report, Severity.isFailure]

variable [CharacterNames]

theorem StopsAt.leavesEffects {place : Place scripts} {s : State} {fault : Fault} {span : Span}
    (h : StopsAt r place s fault span) (hnames : (r.units.map (·.name)).Nodup)
    (hscripts : AreScripts r.units scripts) :
    ∃ e, (evaluate r).outcome = .ok e ∧ LeavesEffects r place s fault span e := by
  obtain ⟨value, hperformed, hstops⟩ := stopsAt_iff.1 h
  let halt : Halt (startState r scripts, none) (scripts.flatMap tasksOf) :=
    ⟨place.tasksBefore, _, place.tasksAfter, _, _, place.tasks_eq, hperformed, hstops⟩
  obtain ⟨fault', span', value', hstop, heval⟩ := evaluate_of_halt hnames hscripts halt
  obtain ⟨rfl, rfl⟩ := Stop.fault.inj hstop
  have hkeys : s.environment.namespaces.keys = (place.before ++ [place.unit]).map (·.1.name) := by
    have hstart : (startState r scripts).environment.namespaces.keys = [] := rfl
    rw [(extends_performAll hperformed).keys, hstart]
    simp [Place.tasksBefore, Task.started]
  refine ⟨_, by rw [heval]; rfl, rfl, rfl, rfl, diagnostics_of_performAll hperformed, hkeys,
    fun u hu hmem => ?_⟩
  rw [← hscripts.map_name, place.scripts_eq, List.append_cons, List.map_append] at hnames
  exact (List.nodup_append.1 hnames).2.2 _ (hkeys ▸ hmem) _ (List.mem_map_of_mem hu) rfl

/-- A run with a failure has stopped at a statement. -/
theorem exists_stopsAt {e : Evaluation} (hnames : (r.units.map (·.name)).Nodup)
    (hscripts : AreScripts r.units scripts) (he : (evaluate r).outcome = .ok e)
    (hfailure : e.success = false) : ∃ (place : Place scripts) (s : State) (fault : Fault)
      (span : Span), StopsAt r place s fault span := by
  rcases evaluate_cases hnames with
    ⟨hnone, -⟩ | ⟨scripts', hscripts', ⟨q, hq, heval⟩ | ⟨i, fault, span, hstop, -⟩⟩
  · exact absurd hscripts (hnone scripts)
  · -- All tasks have been performed, so there are only warnings.
    rw [heval] at he
    obtain rfl := Except.ok.inj he
    simp [Evaluation.success, hasFailure_of_performAll hq] at hfailure
  · obtain rfl := hscripts.unique hscripts'
    have hnames' : (scripts.map (·.1.name)).Nodup := by rwa [hscripts.map_name]
    obtain ⟨init, st, rest, hstatements, hbefore, htask⟩ :=
      i.halt.exists_statement (i.new rfl hnames')
    refine ⟨⟨i.before, i.unit, i.after, init, st, rest, i.units_eq, hstatements⟩,
      i.halt.reached.1, fault, span, stopsAt_iff.2 ⟨i.halt.reached.2, ?_, ?_⟩⟩
    · rw [Place.tasksBefore, performAll_append_of_ok i.performed, ← hbefore]
      exact i.halt.performed
    · rw [← htask, ← hstop]
      exact i.halt.stopped

/-- A run of scripts has a failure exactly if it stops at a statement, and then it leaves the
effects of what stands in front of the statement. In every evaluation the text that is printed is
the output, each line with its end. -/
theorem effects_of_evaluate (r : Request) :
    (∀ e, (evaluate r).outcome = .ok e →
      printedText (evaluate r).events = .ofLines e.output) ∧
    ((r.units.map (·.name)).Nodup → ∀ scripts, AreScripts r.units scripts →
      ∃ e, (evaluate r).outcome = .ok e ∧
        (e.success = false ↔
          ∃ (place : Place scripts) (s : State) (fault : Fault) (span : Span),
            StopsAt r place s fault span) ∧
        ∀ (place : Place scripts) (s : State) (fault : Fault) (span : Span),
          StopsAt r place s fault span → LeavesEffects r place s fault span e) := by
  refine ⟨fun e he => congrArg ScriptText.ofLines (printedLines_evaluate he), ?_⟩
  intro hnames scripts hscripts
  obtain ⟨e, -, -, he, -⟩ := exists_endsAt hnames hscripts
  have hleaves : ∀ (place : Place scripts) (s : State) (fault : Fault) (span : Span),
      StopsAt r place s fault span → LeavesEffects r place s fault span e := by
    intro place s fault span hstops
    obtain ⟨e', he', hleaves⟩ := hstops.leavesEffects hnames hscripts
    obtain rfl := Except.ok.inj (he.symm.trans he')
    exact hleaves
  refine ⟨e, he, ⟨exists_stopsAt hnames hscripts he, ?_⟩, hleaves⟩
  rintro ⟨place, s, fault, span, hstops⟩
  exact (hleaves place s fault span hstops).not_success

end

/-- Three scripts, the second of which has a fault in what it prints last. -/
def breaking : Request where
  root := ⟨.ofString "/w/scripts/main.custom.kts", "Main", "println(5)\n"⟩
  imports := [⟨.ofString "/w/scripts/b.custom.kts", "B", "val x = 1\nprintln(x)\n"⟩,
    ⟨.ofString "/w/scripts/a.custom.kts", "A",
      "val y = 2\nval y = 3\nprintln(y + 1 / 0)\nval z = 4\n"⟩]
  dependencies := .ofList [("B", []), ("A", []), ("Main", ["B", "A"])]

attribute [local instance] CharacterNames.none

/-- The fault leaves what `B` printed and what `A` has bound so far, and `Main` is not entered. -/
theorem effects_of_breaking : (breaking.units.map (·.name)).Nodup ∧
    ∃ (scripts : List ParsedUnit) (e : Evaluation), AreScripts breaking.units scripts ∧
      (evaluate breaking).outcome = .ok e ∧
      (∃ (place : Place scripts) (s : State) (fault : Fault) (span : Span),
        StopsAt breaking place s fault span ∧ LeavesEffects breaking place s fault span e) ∧
      e.output = ["1"] ∧ e.namespaces.keys = ["B", "A"] ∧
      e.diagnostics.map (·.severity) = [.warning, .error] ∧
      printedText (evaluate breaking).events = "1\n" := by
  have hnames : (breaking.units.map (·.name)).Nodup := by decide
  have hparse : ∃ scripts, AreScripts breaking.units scripts :=
    exists_areScripts (by decide +kernel)
  obtain ⟨scripts, hscripts⟩ := hparse
  obtain ⟨hprinted, hruns⟩ := effects_of_evaluate breaking
  obtain ⟨e, he, hstops, hleaves⟩ := hruns hnames scripts hscripts
  have hresult : (evaluate breaking).outcome.toOption.map (fun e =>
      (e.success, e.output, e.namespaces.keys, e.diagnostics.map (·.severity))) =
      some (false, [("1" : ScriptText)], ["B", "A"], [.warning, .error]) := by
    decide +kernel
  simp only [he, Except.toOption, Option.map_some, Option.some.injEq, Prod.mk.injEq] at hresult
  obtain ⟨hsuccess, houtput, hkeys, hseverity⟩ := hresult
  obtain ⟨place, s, fault, span, hstop⟩ := hstops.1 hsuccess
  refine ⟨hnames, scripts, e, hscripts, he, ⟨place, s, fault, span, hstop, hleaves _ _ _ _ hstop⟩,
    houtput, hkeys, hseverity, ?_⟩
  rw [hprinted e he, houtput]
  rfl

end ScriptRunner.Interpreter
