import ScriptRunner.Interpreter

/-!
# Runs as sequences of tasks

Running units is a sequence of tasks: a unit is started, then its statements are executed one after
the other. The first task that cannot be performed ends the run. A start has no value, so the value
of a unit that has run to its end is that of its last task.

## Main definitions

* `Task`, `Task.perform` - the start of a unit, or one of its statements.
* `tasksOf`, `performAll` - the tasks of a unit, and tasks one after the other.
* `Halt`, `Interruption` - where tasks and where units break off.

## Main statements

* `runUnits_cases` - units run to their end, or they break off and a fault is reported.
-/

namespace ScriptRunner.Interpreter

open Script

/-- How far a run has come: its state, and the value of the last task. -/
abbrev Progress := State × Option Value

/-- The smallest part of a run. -/
inductive Task where
  | start (u : ParsedUnit)
  | statement (u : ParsedUnit) (st : Statement Value)

/-- The progress after a task, or the stop that prevents it. -/
def Task.perform (s : State) : Task → Except Stop Progress
  | start u =>
    match s.environment.enter u.1.name with
    | .error fault => .error (.misuse fault)
    | .ok environment => .ok ({ s with environment }.record (.started u.1.name u.1.path), none)
  | statement u st => execute u.1.name u.2.file s st

/-- The tasks of a unit. -/
def tasksOf (u : ParsedUnit) : List Task :=
  .start u :: u.2.statements.map (.statement u)

/-- Tasks one after the other. -/
def performAll (p : Progress) (tasks : List Task) : Except Stop Progress :=
  tasks.foldlM (fun p t => t.perform p.1) p

@[simp] theorem performAll_nil (p : Progress) : performAll p [] = .ok p := rfl

theorem performAll_cons_of_ok {p p' : Progress} {t : Task} (h : t.perform p.1 = .ok p')
    (ts : List Task) : performAll p (t :: ts) = performAll p' ts := by
  rw [performAll, List.foldlM_cons, h]
  rfl

theorem performAll_cons_of_error {p : Progress} {t : Task} {stop : Stop}
    (h : t.perform p.1 = .error stop) (ts : List Task) :
    performAll p (t :: ts) = .error stop := by
  rw [performAll, List.foldlM_cons, h]
  rfl

theorem performAll_cons_eq_ok {p q : Progress} {t : Task} {ts : List Task} :
    performAll p (t :: ts) = .ok q ↔
      ∃ p', t.perform p.1 = .ok p' ∧ performAll p' ts = .ok q := by
  cases h : t.perform p.1 with
  | error stop => simp [performAll_cons_of_error h]
  | ok p' => simp [performAll_cons_of_ok h]

theorem performAll_append (p : Progress) (xs ys : List Task) :
    performAll p (xs ++ ys) = performAll p xs >>= fun p' => performAll p' ys := by
  rw [performAll, List.foldlM_append]
  rfl

theorem performAll_append_of_ok {p p' : Progress} {xs : List Task}
    (h : performAll p xs = .ok p') (ys : List Task) :
    performAll p (xs ++ ys) = performAll p' ys := by
  rw [performAll_append, h]
  rfl

theorem performAll_append_of_error {p : Progress} {xs : List Task} {stop : Stop}
    (h : performAll p xs = .error stop) (ys : List Task) :
    performAll p (xs ++ ys) = .error stop := by
  rw [performAll_append, h]
  rfl

theorem performAll_append_eq_ok {p q : Progress} {xs ys : List Task} :
    performAll p (xs ++ ys) = .ok q ↔
      ∃ p', performAll p xs = .ok p' ∧ performAll p' ys = .ok q := by
  cases h : performAll p xs with
  | error stop => simp [performAll_append_of_error h]
  | ok p' => simp [performAll_append_of_ok h]

/-- Where tasks break off: those before the one that stops have been performed. -/
structure Halt (p : Progress) (tasks : List Task) where
  before : List Task
  task : Task
  after : List Task
  reached : Progress
  stop : Stop
  tasks_eq : tasks = before ++ task :: after
  performed : performAll p before = .ok reached
  stopped : task.perform reached.1 = .error stop

namespace Halt

variable {p p' : Progress} {t : Task} {ts : List Task} {stop : Stop}

/-- The first task stops. -/
def first (h : t.perform p.1 = .error stop) (ts : List Task) : Halt p (t :: ts) :=
  ⟨[], t, ts, p, stop, rfl, rfl, h⟩

/-- A later task stops. -/
def later (h : t.perform p.1 = .ok p') (halt : Halt p' ts) : Halt p (t :: ts) where
  before := t :: halt.before
  task := halt.task
  after := halt.after
  reached := halt.reached
  stop := halt.stop
  tasks_eq := congrArg (t :: ·) halt.tasks_eq
  performed := (performAll_cons_of_ok h _).trans halt.performed
  stopped := halt.stopped

theorem performAll_eq_error (halt : Halt p ts) : performAll p ts = .error halt.stop := by
  obtain ⟨before, task, after, reached, stop, rfl, hperformed, hstopped⟩ := halt
  rw [performAll_append_of_ok hperformed, performAll_cons_of_error hstopped]

end Halt

/-- Where units break off: those before the one that halts have run to their end. -/
structure Interruption (p : Progress) (units : List ParsedUnit) where
  before : List ParsedUnit
  unit : ParsedUnit
  after : List ParsedUnit
  reached : Progress
  units_eq : units = before ++ unit :: after
  performed : performAll p (before.flatMap tasksOf) = .ok reached
  halt : Halt reached (tasksOf unit)

namespace Interruption

variable {p p' : Progress} {u : ParsedUnit} {units : List ParsedUnit}

/-- The first unit breaks off. -/
def first (halt : Halt p (tasksOf u)) (units : List ParsedUnit) : Interruption p (u :: units) :=
  ⟨[], u, units, p, rfl, rfl, halt⟩

/-- A later unit breaks off. -/
def later (h : performAll p (tasksOf u) = .ok p') (i : Interruption p' units) :
    Interruption p (u :: units) where
  before := u :: i.before
  unit := i.unit
  after := i.after
  reached := i.reached
  units_eq := congrArg (u :: ·) i.units_eq
  performed := (performAll_append_of_ok h _).trans i.performed
  halt := i.halt

/-- The report of a fault of a unit. -/
def report (u : ParsedUnit) (fault : Fault) (span : Span) : Diagnostic :=
  ⟨.error, s!"{u.1.name}: {fault.message}", some (Location.ofSpan u.2.file span)⟩

/-- What comes of units that break off: a fault is reported, and the value is that of the units
before. -/
def result (i : Interruption p units) : State × Except UnitFault (Option Value) :=
  match i.halt.stop with
  | .misuse fault => (i.halt.reached.1, .error fault)
  | .fault fault span => (i.halt.reached.1.report (report i.unit fault span), .ok i.reached.2)

/-- Among the tasks of all units, the place where the units break off. -/
def toHalt (i : Interruption p units) : Halt p (units.flatMap tasksOf) where
  before := i.before.flatMap tasksOf ++ i.halt.before
  task := i.halt.task
  after := i.halt.after ++ i.after.flatMap tasksOf
  reached := i.halt.reached
  stop := i.halt.stop
  tasks_eq := by
    have hunits := congrArg (List.flatMap tasksOf) i.units_eq
    have hunit := congrArg (· ++ i.after.flatMap tasksOf) i.halt.tasks_eq
    rw [hunits, List.flatMap_append, List.flatMap_cons]
    refine (congrArg (i.before.flatMap tasksOf ++ ·) hunit).trans ?_
    simp
  performed := (performAll_append_of_ok i.performed _).trans i.halt.performed
  stopped := i.halt.stopped

theorem performAll_eq_error (i : Interruption p units) :
    performAll p (units.flatMap tasksOf) = .error i.halt.stop :=
  i.toHalt.performAll_eq_error

theorem unit_mem (i : Interruption p units) : i.unit ∈ units :=
  (congrArg (i.unit ∈ ·) i.units_eq).mpr (List.mem_append_right _ List.mem_cons_self)

end Interruption

theorem runStatements_cases (u : ParsedUnit) (sts : List (Statement Value)) (p : Progress) :
    (∃ q, performAll p (sts.map (.statement u)) = .ok q ∧
      runStatements u.1.name u.2.file p.1 p.2 sts = (q.1, .ok q.2)) ∨
    ∃ halt : Halt p (sts.map (.statement u)),
      runStatements u.1.name u.2.file p.1 p.2 sts = (halt.reached.1, .error halt.stop) := by
  induction sts generalizing p with
  | nil => exact .inl ⟨p, rfl, rfl⟩
  | cons st sts ih =>
    cases hst : (Task.statement u st).perform p.1 with
    | error stop =>
      refine .inr ⟨.first hst _, ?_⟩
      rw [runStatements, show execute u.1.name u.2.file p.1 st = .error stop from hst]
      rfl
    | ok p' =>
      have hrun : runStatements u.1.name u.2.file p.1 p.2 (st :: sts) =
          runStatements u.1.name u.2.file p'.1 p'.2 sts := by
        rw [runStatements, show execute u.1.name u.2.file p.1 st = .ok p' from hst]
      rw [hrun, List.map_cons, performAll_cons_of_ok hst]
      rcases ih p' with ⟨q, hq, hrest⟩ | ⟨halt, hrest⟩
      · exact .inl ⟨q, hq, hrest⟩
      · exact .inr ⟨halt.later hst, hrest⟩

theorem runUnit_cases (u : ParsedUnit) (p : Progress) :
    (∃ q, performAll p (tasksOf u) = .ok q ∧ runUnit p.1 u = (q.1, .ok q.2)) ∨
    ∃ halt : Halt p (tasksOf u), runUnit p.1 u = (halt.reached.1, .error halt.stop) := by
  cases henter : p.1.environment.enter u.1.name with
  | error fault =>
    -- The start itself stops, before any statement.
    have hstart : (Task.start u).perform p.1 = .error (.misuse fault) := by
      simp only [Task.perform, henter]
    refine .inr ⟨.first hstart _, ?_⟩
    simp only [runUnit, henter]
    rfl
  | ok environment =>
    let s := { p.1 with environment }.record (.started u.1.name u.1.path)
    have hstart : (Task.start u).perform p.1 = .ok (s, none) := by
      simp only [Task.perform, henter, s]
    have hrun : runUnit p.1 u = runStatements u.1.name u.2.file s none u.2.statements := by
      simp only [runUnit, henter, s]
    rw [hrun, tasksOf, performAll_cons_of_ok hstart]
    rcases runStatements_cases u u.2.statements (s, none) with ⟨q, hq, hrest⟩ | ⟨halt, hrest⟩
    · exact .inl ⟨q, hq, hrest⟩
    · exact .inr ⟨halt.later hstart, hrest⟩

/-- Units run to their end, or they break off. -/
theorem runUnits_cases (units : List ParsedUnit) (p : Progress) :
    (∃ q, performAll p (units.flatMap tasksOf) = .ok q ∧
      runUnits p.1 p.2 units = (q.1, .ok q.2)) ∨
    ∃ i : Interruption p units, runUnits p.1 p.2 units = i.result := by
  induction units generalizing p with
  | nil => exact .inl ⟨p, rfl, rfl⟩
  | cons u units ih =>
    rcases runUnit_cases u p with ⟨p', hp', hu⟩ | ⟨halt, hu⟩
    · rw [runUnits, hu]
      rcases ih p' with ⟨q, hq, hrest⟩ | ⟨i, hrest⟩
      · refine .inl ⟨q, ?_, hrest⟩
        rw [List.flatMap_cons, performAll_append_of_ok hp', hq]
      · exact .inr ⟨i.later hp', hrest⟩
    · refine .inr ⟨.first halt units, ?_⟩
      rw [runUnits, hu]
      simp only [Interruption.result, Interruption.first]
      cases halt.stop <;> rfl

end ScriptRunner.Interpreter
