import ScriptRunner.Proofs.Interpreter.Moments

/-!
# The diagnostics of an evaluation

If some unit is no script, every such unit is reported and nothing runs. Otherwise the diagnostics
follow the phases of the evaluation: what the annotations mean, then the values that replace others
while the units run, then the fault that breaks the run off, if one does.

## Main definitions

* `otherAnnotations`, `WarnsAbout` - the annotations that mean nothing, and a warning about one.
* `rebindings` - the warnings of tasks that give names new values.
* `Rejects`, `ReportsRun` - the two shapes of diagnostics.

## Main statements

* `diagnostics_performAll` - what tasks add to the diagnostics.
* `diagnostics_of_evaluate` - the diagnostics of every evaluation have one of the two shapes.
-/

namespace ScriptRunner

/-- A script is placed in the file that it is read from. -/
theorem Script.file_of_parse [CharacterNames] {file text : String} {p : Script.Program}
    (h : Script.parse file text = .ok p) : p.file = file := by
  unfold Script.parse at h
  split at h
  · simp at h
  · split at h
    · simp at h
    · obtain rfl := Except.ok.inj h
      rfl

namespace Interpreter

open Script

/-- The annotations of scripts that declare no import in a header, in the order of the units and
of their texts. -/
def otherAnnotations (scripts : List ParsedUnit) : List (ParsedUnit × Annotation) :=
  scripts.flatMap fun u =>
    (u.2.annotations.filter fun a => !(a.isImport && a.inHeader)).map (u, ·)

/-- A diagnostic warns about an annotation of a unit, at its place. -/
structure WarnsAbout (x : ParsedUnit × Annotation) (d : Diagnostic) : Prop where
  severity : d.severity = .warning
  location : d.location = some (.ofSpan x.1.1.path.toString x.2.span)

theorem forall₂_annotationWarnings {u : ParsedUnit} (hfile : u.2.file = u.1.path.toString) :
    List.Forall₂ (fun a d => WarnsAbout (u, a) d)
      (u.2.annotations.filter fun a => !(a.isImport && a.inHeader)) (annotationWarnings u.2) := by
  refine forall₂_filter_filterMap (fun a => ?_) _
  unfold annotationWarning?
  cases himport : a.isImport with
  | false => exact .inr ⟨rfl, _, rfl, rfl, by rw [Program.locate, hfile]⟩
  | true =>
    cases hheader : a.inHeader with
    | false => exact .inr ⟨rfl, _, rfl, rfl, by rw [Program.locate, hfile]⟩
    | true => exact .inl ⟨rfl, rfl⟩

/-- The warnings before the first task are those about the annotations. -/
theorem forall₂_warnsAbout {scripts : List ParsedUnit}
    (hfile : ∀ u ∈ scripts, u.2.file = u.1.path.toString) :
    List.Forall₂ WarnsAbout (otherAnnotations scripts)
      (scripts.flatMap fun u => annotationWarnings u.2) := by
  induction scripts with
  | nil => exact .nil
  | cons u scripts ih =>
    obtain ⟨hu, hscripts⟩ := List.forall_mem_cons.1 hfile
    rw [otherAnnotations, List.flatMap_cons, List.flatMap_cons]
    refine List.rel_append ?_ (ih hscripts)
    exact List.forall₂_map_left_iff.2 (forall₂_annotationWarnings hu)

/-- The unit and the name that a task gives a value to. -/
def Task.assigned? : Task → Option (String × String)
  | statement u (.val name _ _) => some (u.1.name, name)
  | _ => none

/-- The warning of a task that gives a name a value, if the name is bound in its unit already. -/
def Task.rebinding (bound : List (String × String)) : Task → List Diagnostic
  | statement u (.val name _ span) =>
    if (u.1.name, name) ∈ bound then
      [rebindingWarning u.1.name name (.ofSpan u.2.file span)]
    else []
  | _ => []

/-- The warnings of tasks that give bound names new values, in the order of the tasks. -/
def rebindings (bound : List (String × String)) : List Task → List Diagnostic
  | [] => []
  | t :: ts => t.rebinding bound ++ rebindings (t.assigned?.toList ++ bound) ts

/-- A warning about a new value is that of a statement which gives it. -/
theorem exists_val_of_mem_rebindings {bound : List (String × String)} {tasks : List Task}
    {d : Diagnostic} (h : d ∈ rebindings bound tasks) : ∃ u name e span,
      Task.statement u (.val name e span) ∈ tasks ∧
      d = rebindingWarning u.1.name name (.ofSpan u.2.file span) := by
  induction tasks generalizing bound with
  | nil => simp [rebindings] at h
  | cons t ts ih =>
    rcases List.mem_append.1 h with h | h
    · unfold Task.rebinding at h
      split at h
      · split at h
        · exact ⟨_, _, _, _, List.mem_cons_self, List.mem_singleton.1 h⟩
        · simp at h
      · simp at h
    · obtain ⟨u, name, e, span, hmem, hd⟩ := ih h
      exact ⟨u, name, e, span, List.mem_cons_of_mem t hmem, hd⟩

theorem severity_of_mem_rebindings {bound : List (String × String)} {tasks : List Task}
    {d : Diagnostic} (h : d ∈ rebindings bound tasks) : d.severity = .warning := by
  obtain ⟨u, name, e, span, -, rfl⟩ := exists_val_of_mem_rebindings h
  rfl

/-- The warnings of tasks behind others are those behind other bindings. -/
theorem exists_rebindings_append (bound : List (String × String)) (xs ys : List Task) :
    ∃ bound', rebindings bound (xs ++ ys) = rebindings bound xs ++ rebindings bound' ys := by
  induction xs generalizing bound with
  | nil => exact ⟨bound, rfl⟩
  | cons t ts ih =>
    obtain ⟨bound', heq⟩ := ih (t.assigned?.toList ++ bound)
    exact ⟨bound', by rw [List.cons_append, rebindings, rebindings, heq, List.append_assoc]⟩

/-- A name is bound in a unit that has been entered. -/
def State.Binds (s : State) (unit name : String) : Prop :=
  ∃ own, s.environment.namespaces.find? unit = some own ∧ name ∈ own.keys

/-- A task binds the name that it assigns, and no other. -/
theorem binds_perform {s : State} {t : Task} {q : Progress} (h : t.perform s = .ok q)
    (unit name : String) :
    q.1.Binds unit name ↔ t.assigned? = some (unit, name) ∨ s.Binds unit name := by
  -- Only the namespace of the unit of the task changes.
  by_cases hunit : t.unit.1.name = unit
  swap
  · rw [State.Binds, find?_perform h hunit, State.Binds, or_iff_right]
    intro hassigned
    unfold Task.assigned? at hassigned
    split at hassigned
    · exact hunit (Prod.mk.inj (Option.some.inj hassigned)).1
    · simp at hassigned
  subst hunit
  cases t with
  | start u =>
    obtain ⟨hnew, rfl⟩ := perform_start_eq_ok h
    have hnone := (Table.find?_eq_none_iff _ _).2 hnew
    simp [State.Binds, State.record, Task.unit, Task.assigned?, hnone, Table.keys, Table.empty]
  | statement u st =>
    cases st with
    | val n e span =>
      obtain ⟨v, own, -, hown, henv, -⟩ := perform_val_eq_ok h
      simp [State.Binds, henv, Task.unit, Task.assigned?, hown, Table.mem_keys_insert, eq_comm]
    | print e span =>
      obtain ⟨v, line, -, -, rfl⟩ := perform_print_eq_ok h
      simp [State.Binds, State.print, State.record, Task.assigned?]
    | expression e span =>
      obtain ⟨v, -, rfl⟩ := perform_expression_eq_ok.1 h
      simp [Task.assigned?]

/-- A task adds the warning about a name that is bound already. -/
theorem diagnostics_perform {s : State} {t : Task} {q : Progress} {bound : List (String × String)}
    (h : t.perform s = .ok q) (hbound : ∀ unit name, (unit, name) ∈ bound ↔ s.Binds unit name) :
    q.1.diagnostics = s.diagnostics ++ t.rebinding bound := by
  cases t with
  | start u =>
    obtain ⟨-, rfl⟩ := perform_start_eq_ok h
    exact (List.append_nil _).symm
  | statement u st =>
    cases st with
    | val n e span =>
      obtain ⟨v, own, -, hown, -, -, -, hdiagnostics, -⟩ := perform_val_eq_ok h
      have hbinds : (u.1.name, n) ∈ bound ↔ own.contains n = true := by
        rw [hbound, State.Binds, hown, Table.contains_iff_mem_keys]
        simp
      simp only [hdiagnostics, Task.rebinding, hbinds]
    | print e span =>
      obtain ⟨v, line, -, -, rfl⟩ := perform_print_eq_ok h
      exact (List.append_nil _).symm
    | expression e span =>
      obtain ⟨v, -, rfl⟩ := perform_expression_eq_ok.1 h
      exact (List.append_nil _).symm

theorem diagnostics_performAll {p q : Progress} {tasks : List Task}
    {bound : List (String × String)} (h : performAll p tasks = .ok q)
    (hbound : ∀ unit name, (unit, name) ∈ bound ↔ p.1.Binds unit name) :
    q.1.diagnostics = p.1.diagnostics ++ rebindings bound tasks := by
  induction tasks generalizing p bound with
  | nil =>
    obtain rfl := Except.ok.inj h
    exact (List.append_nil _).symm
  | cons t ts ih =>
    obtain ⟨p', ht, hts⟩ := performAll_cons_eq_ok.1 h
    have hbound' : ∀ unit name,
        (unit, name) ∈ t.assigned?.toList ++ bound ↔ p'.1.Binds unit name := by
      intro unit name
      rw [List.mem_append, Option.mem_toList, hbound, binds_perform ht]
    rw [ih hts hbound', diagnostics_perform ht hbound, List.append_assoc, rebindings]

/-- The error that breaks a run off after the tasks that are done: it is about the statement that
comes next, it names the unit first, and it is placed in the file of the unit. -/
structure BreaksOffWith (scripts : List ParsedUnit) (done : List Task) (d : Diagnostic) : Prop where
  severity : d.severity = .error
  statement : ∃ u st rest, scripts.flatMap tasksOf = done ++ .statement u st :: rest ∧
    (∃ text, d.message = u.1.name ++ ": " ++ text) ∧
    ∃ place, d.location = some place ∧ place.file = u.1.path.toString

theorem BreaksOffWith.done_ne {scripts : List ParsedUnit} {done : List Task} {d : Diagnostic}
    (h : BreaksOffWith scripts done d) : done ≠ scripts.flatMap tasksOf := by
  obtain ⟨u, st, rest, htasks, -⟩ := h.statement
  simp [htasks]

/-- The diagnostics of scripts that run: warnings about annotations, warnings about new values of
the tasks that are done, and an error if not all tasks are done. -/
structure ReportsRun (scripts : List ParsedUnit) (done : List Task) (e : Evaluation) : Prop where
  diagnostics : ∃ (warnings : List Diagnostic) (error? : Option Diagnostic),
    e.diagnostics = warnings ++ rebindings [] done ++ error?.toList ∧
    List.Forall₂ WarnsAbout (otherAnnotations scripts) warnings ∧
    (error? = none ↔ done = scripts.flatMap tasksOf) ∧
    ∀ d ∈ error?, BreaksOffWith scripts done d
  success : e.success = true ↔ done = scripts.flatMap tasksOf

theorem hasFailure_append (xs ys : List Diagnostic) :
    hasFailure (xs ++ ys) = (hasFailure xs || hasFailure ys) :=
  List.any_append

theorem hasFailure_of_warnings {ds : List Diagnostic} (h : ∀ d ∈ ds, d.severity = .warning) :
    hasFailure ds = false := by
  rw [hasFailure, List.any_eq_false]
  intro d hd
  simp [h d hd, Severity.isFailure]

/-- Diagnostics are those of a run if its tasks are all done, or if an error stands behind them. -/
theorem reportsRun_of_diagnostics {scripts : List ParsedUnit} {done : List Task} {e : Evaluation}
    {warnings : List Diagnostic} (error? : Option Diagnostic)
    (heq : e.diagnostics = warnings ++ rebindings [] done ++ error?.toList)
    (hwarnings : List.Forall₂ WarnsAbout (otherAnnotations scripts) warnings)
    (hdone : error? = none ↔ done = scripts.flatMap tasksOf)
    (herror : ∀ d ∈ error?, BreaksOffWith scripts done d) : ReportsRun scripts done e := by
  refine ⟨⟨warnings, error?, heq, hwarnings, hdone, herror⟩, ?_⟩
  have hsilent : hasFailure (warnings ++ rebindings [] done) = false := by
    refine hasFailure_of_warnings fun d hd => ?_
    rcases List.mem_append.1 hd with hd | hd
    · obtain ⟨x, -, hx⟩ := exists_of_forall₂_right hwarnings hd
      exact hx.severity
    · exact severity_of_mem_rebindings hd
  rw [← hdone, Evaluation.success, heq, hasFailure_append, hsilent, Bool.false_or]
  cases error? with
  | none => simp [hasFailure]
  | some d => simp [hasFailure, (herror d rfl).severity, Severity.isFailure]

theorem diagnostics_of_performAll {r : Request} {scripts : List ParsedUnit} {done : List Task}
    {q : Progress} (h : performAll (startState r scripts, none) done = .ok q) :
    q.1.diagnostics = (scripts.flatMap fun u => annotationWarnings u.2) ++ rebindings [] done := by
  refine diagnostics_performAll h fun unit name => iff_of_false List.not_mem_nil ?_
  rintro ⟨own, hown, -⟩
  simp [startState, Environment.start] at hown

section

variable [CharacterNames]

/-- The text of a unit is a script. -/
def isScript (u : ScriptUnit) : Bool :=
  (parse u.path.toString u.text).toOption.isSome

theorem AreScripts.isScript {units : List ScriptUnit} {scripts : List ParsedUnit}
    (h : AreScripts units scripts) {u : ScriptUnit} (hu : u ∈ units) : isScript u = true := by
  rw [← h.map_unit] at hu
  obtain ⟨v, hv, rfl⟩ := List.mem_map.1 hu
  simp [Interpreter.isScript, h.parse_eq hv, Except.toOption]

/-- There is an error for each unit that is no script, in the order of the units, and nothing
runs. -/
structure Rejects (r : Request) (e : Evaluation) : Prop where
  diagnostics : List.Forall₂ (fun u d => ∃ error, parse u.path.toString u.text = .error error ∧
    d = ⟨.error, error.message, error.location⟩) (r.units.filter (!isScript ·)) e.diagnostics
  namespaces : e.namespaces.keys = []
  output : e.output = []
  printed : printedLines (evaluate r).events = []
  value : e.value = none

theorem forall₂_parseReports (units : List ScriptUnit) :
    List.Forall₂ (fun u d => ∃ error, parse u.path.toString u.text = .error error ∧
      d = ⟨.error, error.message, error.location⟩) (units.filter (!isScript ·))
      ((readUnits units).filterMap parseReport?) := by
  rw [readUnits, List.filterMap_map]
  refine forall₂_filter_filterMap (fun u => ?_) units
  unfold isScript
  cases h : parse u.path.toString u.text with
  | error error => exact .inr ⟨rfl, _, by simp [h, parseReport?], error, rfl, rfl⟩
  | ok p => exact .inl ⟨rfl, by simp [h, parseReport?]⟩

theorem exists_areScripts {units : List ScriptUnit} (h : ∀ u ∈ units, isScript u = true) :
    ∃ scripts, AreScripts units scripts := by
  rcases areScripts_or_report units with hscripts | ⟨d, ds, hreports⟩
  · exact hscripts
  · have hnone : units.filter (!isScript ·) = [] :=
      List.filter_eq_nil_iff.2 fun u hu => by simp [h u hu]
    have hall := forall₂_parseReports units
    rw [hnone, hreports] at hall
    exact absurd hall (by simp)

section Runs

variable {r : Request} {scripts : List ParsedUnit}

theorem AreScripts.file_eq (h : AreScripts r.units scripts) {u : ParsedUnit} (hu : u ∈ scripts) :
    u.2.file = u.1.path.toString :=
  file_of_parse (h.parse_eq hu)

/-- The report of a fault is the error that breaks a run off. -/
theorem breaksOffWith_report (hscripts : AreScripts r.units scripts)
    (halt : Halt (startState r scripts, none) (scripts.flatMap tasksOf)) {fault : Fault}
    {span : Span} (hstop : halt.stop = .fault fault span) :
    BreaksOffWith scripts halt.before (Interruption.report halt.task.unit fault span) := by
  have hstopped := hstop ▸ halt.stopped
  have hmem := unit_mem_of_mem_tasks halt.task_mem
  have htasks := halt.tasks_eq
  cases htask : halt.task with
  | start u =>
    -- A start can only be a wrong use of the environment.
    rw [htask, Task.perform] at hstopped
    split at hstopped <;> simp at hstopped
  | statement u st =>
    rw [htask] at hmem htasks
    refine ⟨rfl, u, st, halt.after, htasks, ⟨fault.message, rfl⟩, _, rfl, ?_⟩
    exact hscripts.file_eq hmem

theorem reportsRun_of_endsAt (hnames : (r.units.map (·.name)).Nodup)
    (hscripts : AreScripts r.units scripts) {e : Evaluation} {done : List Task} {q : Progress}
    (he : (evaluate r).outcome = .ok e) (hends : EndsAt r scripts e done q) :
    ReportsRun scripts done e := by
  have hwarnings := forall₂_warnsAbout fun u hu => hscripts.file_eq hu
  cases h : performAll (startState r scripts, none) (scripts.flatMap tasksOf) with
  | ok q' =>
    have hdone : scripts.flatMap tasksOf = done :=
      (hends.last _ _ List.prefix_rfl h).eq_of_length_le hends.begins.length_le
    obtain rfl := Except.ok.inj ((congrArg Traced.outcome
      (evaluate_of_performAll hnames hscripts h)).symm.trans he)
    refine reportsRun_of_diagnostics none ?_ hwarnings (by simp [hdone]) (by simp)
    simpa [hdone] using diagnostics_of_performAll h
  | error stop =>
    obtain ⟨halt, -⟩ := exists_halt h
    obtain ⟨fault, span, value, hstop, heval⟩ := evaluate_of_halt hnames hscripts halt
    have hdone : halt.before = done := by
      have hbefore := hends.last halt.before _ ⟨_, halt.tasks_eq.symm⟩ halt.performed
      exact hbefore.eq_of_length_le (halt.begins_before hends.begins hends.performed).length_le
    obtain rfl := Except.ok.inj ((congrArg Traced.outcome heval).symm.trans he)
    subst hdone
    have hbreaks := breaksOffWith_report hscripts halt hstop
    refine reportsRun_of_diagnostics (some (Interruption.report halt.task.unit fault span)) ?_
      hwarnings ?_ fun d hd => ?_
    · exact congrArg (· ++ [_]) (diagnostics_of_performAll halt.performed)
    · exact iff_of_false (by simp) hbreaks.done_ne
    · obtain rfl := Option.some.inj hd
      exact hbreaks

/-- Every request whose units have distinct names has an evaluation. If a unit is no script, then
the diagnostics are the errors of such units; otherwise they are those of a run. -/
theorem diagnostics_of_evaluate (hnames : (r.units.map (·.name)).Nodup) :
    ∃ e, (evaluate r).outcome = .ok e ∧
      ((∃ u ∈ r.units, isScript u = false) → Rejects r e) ∧
      ((∀ u ∈ r.units, isScript u = true) → ∃ scripts done q, AreScripts r.units scripts ∧
        EndsAt r scripts e done q ∧ ReportsRun scripts done e) := by
  rcases evaluate_cases hnames with ⟨hnone, heval⟩ | ⟨scripts, hscripts, -⟩
  · refine ⟨_, by rw [heval], fun _ => ?_, fun hall => ?_⟩
    · exact ⟨forall₂_parseReports r.units, rfl, rfl, by rw [heval]; rfl, rfl⟩
    · obtain ⟨scripts, hscripts⟩ := exists_areScripts hall
      exact absurd hscripts (hnone scripts)
  · obtain ⟨e, done, q, he, hends⟩ := exists_endsAt hnames hscripts
    refine ⟨e, he, ?_, fun _ => ?_⟩
    · rintro ⟨u, hu, hfalse⟩
      exact absurd (hscripts.isScript hu) (by simp [hfalse])
    · exact ⟨scripts, done, q, hscripts, hends, reportsRun_of_endsAt hnames hscripts he hends⟩

end Runs

end

attribute [local instance] CharacterNames.none

/-- A script with an annotation that means nothing, a name with two values and a fault. -/
def grumbling : Request where
  root := ⟨.ofString "/w/scripts/main.custom.kts", "Main",
    "@file:Since(\"1.0\")\nval x = 1\nval x = 2\ny\n"⟩
  imports := []
  dependencies := .ofList [("Main", [])]

/-- Two units that are no scripts. -/
def garbled : Request where
  root := ⟨.ofString "/w/scripts/main.custom.kts", "Main", "1 /\n"⟩
  imports := [⟨.ofString "/w/scripts/a.custom.kts", "A", "val = 1\n"⟩]
  dependencies := .ofList [("A", []), ("Main", ["A"])]

theorem diagnostics_of_grumbling : (grumbling.units.map (·.name)).Nodup ∧
    (∃ e scripts done q, (evaluate grumbling).outcome = .ok e ∧
      AreScripts grumbling.units scripts ∧ EndsAt grumbling scripts e done q ∧
      ReportsRun scripts done e ∧ e.diagnostics.map (·.severity) = [.warning, .warning, .error]) ∧
    (garbled.units.map (·.name)).Nodup ∧
    ∃ e, (evaluate garbled).outcome = .ok e ∧ Rejects garbled e ∧
      e.diagnostics.map (·.severity) = [.error, .error] := by
  have hruns : (grumbling.units.map (·.name)).Nodup := by decide
  have hrejects : (garbled.units.map (·.name)).Nodup := by decide
  have hseverity : (evaluate grumbling).outcome.toOption.map (·.diagnostics.map (·.severity)) =
      some [.warning, .warning, .error] := by decide +kernel
  have hseverity' : (evaluate garbled).outcome.toOption.map (·.diagnostics.map (·.severity)) =
      some [.error, .error] := by decide +kernel
  obtain ⟨e, he, -, hscripts⟩ := diagnostics_of_evaluate hruns
  obtain ⟨scripts, done, q, hall, hends, hreports⟩ := hscripts (by decide +kernel)
  obtain ⟨e', he', hgarbled, -⟩ := diagnostics_of_evaluate hrejects
  refine ⟨hruns, ⟨e, scripts, done, q, he, hall, hends, hreports, ?_⟩, hrejects, e', he',
    hgarbled (by decide +kernel), ?_⟩
  · simpa [he, Except.toOption] using hseverity
  · simpa [he', Except.toOption] using hseverity'

end Interpreter

end ScriptRunner
