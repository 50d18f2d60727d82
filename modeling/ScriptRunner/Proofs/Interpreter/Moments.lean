import ScriptRunner.Proofs.ImportGraph.EvaluationOrder
import ScriptRunner.Proofs.Interpreter.ResultValue

/-!
# The moments of a run

An evaluation performs tasks until one of them stops or none is left. The moments between two tasks
are the places where claims about a running unit hold: its start, each of its statements, and the
end, which is the last moment that the tasks reach.

## Main definitions

* `Starts`, `GetsTo` - a unit starts, and it gets to one of its statements.
* `Settled` - a namespace stays as it is.
* `EndsAt` - the last moment of an evaluation.

## Main statements

* `find?_performAll` - tasks leave the namespaces of other units as they are.
* `Halt.unique` - tasks break off in only one way.
* `exists_endsAt_reported`, `exists_endsAt` - every evaluation of scripts has a last moment.
* `started_mem_events_iff` - the log names exactly the units that start.
-/

namespace ScriptRunner

namespace Interpreter

open Script

/-- The unit that a task is part of. -/
def Task.unit : Task → ParsedUnit
  | start u | statement u _ => u

theorem unit_of_mem_tasksOf {u : ParsedUnit} {t : Task} (h : t ∈ tasksOf u) : t.unit = u := by
  rcases List.mem_cons.1 h with rfl | h
  · rfl
  · obtain ⟨st, -, rfl⟩ := List.mem_map.1 h
    rfl

theorem unit_mem_of_mem_tasks {units : List ParsedUnit} {t : Task}
    (h : t ∈ units.flatMap tasksOf) : t.unit ∈ units := by
  obtain ⟨u, hu, ht⟩ := List.mem_flatMap.1 h
  rwa [unit_of_mem_tasksOf ht]

/-- A task leaves the namespaces of other units as they are. -/
theorem find?_perform {s : State} {t : Task} {q : Progress} {name : String}
    (h : t.perform s = .ok q) (hname : t.unit.1.name ≠ name) :
    q.1.environment.namespaces.find? name = s.environment.namespaces.find? name := by
  cases t with
  | start u =>
    obtain ⟨-, rfl⟩ := perform_start_eq_ok h
    exact Table.find?_insert_of_ne _ _ hname
  | statement u st =>
    cases st with
    | val n e span =>
      obtain ⟨v, own, -, -, henv, -⟩ := perform_val_eq_ok h
      rw [henv]
      exact Table.find?_insert_of_ne _ _ hname
    | print e span =>
      obtain ⟨v, line, -, -, rfl⟩ := perform_print_eq_ok h
      rfl
    | expression e span =>
      obtain ⟨v, -, rfl⟩ := perform_expression_eq_ok.1 h
      rfl

theorem find?_performAll {p q : Progress} {tasks : List Task} {name : String}
    (h : performAll p tasks = .ok q) (hname : ∀ t ∈ tasks, t.unit.1.name ≠ name) :
    q.1.environment.namespaces.find? name = p.1.environment.namespaces.find? name := by
  induction tasks generalizing p with
  | nil =>
    obtain rfl := Except.ok.inj h
    rfl
  | cons t ts ih =>
    obtain ⟨p', ht, hts⟩ := performAll_cons_eq_ok.1 h
    obtain ⟨hfirst, hrest⟩ := List.forall_mem_cons.1 hname
    exact (ih hts hrest).trans (find?_perform ht hfirst)

section

variable [CharacterNames]

/-- A unit starts in the evaluation of a request: the units before it have executed all their
statements. -/
structure Starts (r : Request) (before : List ParsedUnit) (u : ParsedUnit)
    (after : List ParsedUnit) (p : Progress) : Prop where
  scripts : AreScripts r.units (before ++ u :: after)
  performed :
    performAll (startState r (before ++ u :: after), none) (before.flatMap tasksOf) = .ok p

/-- A unit that starts gets to one of its statements, with those before it executed. -/
structure GetsTo (p : Progress) (u : ParsedUnit) (init : List (Statement Value))
    (st : Statement Value) (q : Progress) : Prop where
  statements : ∃ rest, u.2.statements = init ++ st :: rest
  performed : performAll p (.start u :: init.map (.statement u)) = .ok q

/-- While tasks are performed, the namespace of a unit stays as it is. -/
def Settled (p : Progress) (tasks : List Task) (name : String) : Prop :=
  ∀ done rest q, tasks = done ++ rest → performAll p done = .ok q →
    q.1.environment.namespaces.find? name = p.1.environment.namespaces.find? name

/-- A unit that has run is settled, because no later task is part of it. -/
theorem Starts.settled {r : Request} {before after : List ParsedUnit} {u : ParsedUnit}
    {p : Progress}
    (h : Starts r before u after p) (hnames : (r.units.map (·.name)).Nodup) {v : ParsedUnit}
    (hv : v ∈ before) : Settled p ((u :: after).flatMap tasksOf) v.1.name := by
  intro done rest q htasks hq
  refine find?_performAll hq fun t ht heq => ?_
  have hlater : t.unit ∈ u :: after := unit_mem_of_mem_tasks (by rw [htasks]; simp [ht])
  rw [← h.scripts.map_name, List.map_append] at hnames
  exact (List.nodup_append.1 hnames).2.2 _ (List.mem_map_of_mem hv) _ (List.mem_map_of_mem hlater)
    heq.symm

end

namespace Halt

variable {p p' : Progress} {ts xs ys : List Task}

theorem task_mem (halt : Halt p ts) : halt.task ∈ ts :=
  (congrArg (halt.task ∈ ·) halt.tasks_eq).mpr (List.mem_append_right _ List.mem_cons_self)

theorem not_performed (halt : Halt p ts) (rest : List Task) (q : Progress) :
    performAll p (halt.before ++ halt.task :: rest) ≠ .ok q := by
  rw [performAll_append_of_ok halt.performed, performAll_cons_of_error halt.stopped]
  simp

/-- Tasks break off in only one way. -/
theorem unique (a b : Halt p ts) : a = b := by
  have hbefore : a.before = b.before :=
    before_eq_of_breaks (P := fun done => ∃ q, performAll p done = .ok q)
      (a.tasks_eq.symm.trans b.tasks_eq) ⟨_, a.performed⟩ ⟨_, b.performed⟩
      (fun rest ⟨q, hq⟩ => a.not_performed rest q hq) fun rest ⟨q, hq⟩ => b.not_performed rest q hq
  obtain ⟨before, task, after, reached, stop, heq, hperformed, hstopped⟩ := a
  obtain ⟨before', task', after', reached', stop', heq', hperformed', hstopped'⟩ := b
  obtain rfl : before = before' := hbefore
  obtain ⟨rfl, rfl⟩ := List.cons.inj (List.append_cancel_left (heq.symm.trans heq'))
  obtain rfl := Except.ok.inj (hperformed.symm.trans hperformed')
  obtain rfl := Except.error.inj (hstopped.symm.trans hstopped')
  rfl

/-- Tasks break off after others that have been performed. -/
def after_performed (halt : Halt p' ys) (h : performAll p xs = .ok p') : Halt p (xs ++ ys) where
  before := xs ++ halt.before
  task := halt.task
  after := halt.after
  reached := halt.reached
  stop := halt.stop
  tasks_eq := (congrArg (xs ++ ·) halt.tasks_eq).trans (List.append_assoc _ _ _).symm
  performed := (performAll_append_of_ok h _).trans halt.performed
  stopped := halt.stopped

/-- Other tasks behind those that break off. -/
def append (halt : Halt p xs) (ys : List Task) : Halt p (xs ++ ys) where
  before := halt.before
  task := halt.task
  after := halt.after ++ ys
  reached := halt.reached
  stop := halt.stop
  tasks_eq := (congrArg (· ++ ys) halt.tasks_eq).trans (List.append_assoc _ _ _)
  performed := halt.performed
  stopped := halt.stopped

/-- What can be performed comes before the break. -/
theorem begins_before (halt : Halt p ts) (hxs : xs <+: ts) (h : performAll p xs = .ok p') :
    xs <+: halt.before := by
  obtain ⟨ys, rfl⟩ := hxs
  have herror := halt.performAll_eq_error
  rw [performAll_append_of_ok h] at herror
  obtain ⟨later, -⟩ := exists_halt herror
  rw [halt.unique (later.after_performed h)]
  exact List.prefix_append _ _

end Halt

/-- Units break off where their tasks do. -/
theorem Interruption.exists_halt {p : Progress} {units : List ParsedUnit}
    (i : Interruption p units) :
    ∃ halt : Halt p (units.flatMap tasksOf), halt.task.unit = i.unit ∧
      halt.reached = i.halt.reached ∧ halt.stop = i.halt.stop := by
  obtain ⟨before, unit, after, reached, rfl, hperformed, halt⟩ := i
  rw [List.flatMap_append, List.flatMap_cons]
  exact ⟨(halt.append _).after_performed hperformed, unit_of_mem_tasksOf halt.task_mem, rfl, rfl⟩

section Ends

variable [CharacterNames] {r : Request} {scripts : List ParsedUnit}

theorem evaluate_of_performAll (hnames : (r.units.map (·.name)).Nodup)
    (hscripts : AreScripts r.units scripts) {q : Progress}
    (h : performAll (startState r scripts, none) (scripts.flatMap tasksOf) = .ok q) :
    evaluate r = q.1.evaluating scripts.length q.2 := by
  rcases evaluate_cases hnames with
    ⟨hnone, -⟩ | ⟨scripts', hscripts', ⟨q', hq', heval⟩ | ⟨i, -⟩⟩
  · exact absurd hscripts (hnone scripts)
  · obtain rfl := hscripts.unique hscripts'
    obtain rfl := Except.ok.inj (h.symm.trans hq')
    exact heval
  · obtain rfl := hscripts.unique hscripts'
    exact absurd (h.symm.trans i.performAll_eq_error) (by simp)

/-- The break of the tasks is reported and ends the evaluation. -/
theorem evaluate_of_halt (hnames : (r.units.map (·.name)).Nodup)
    (hscripts : AreScripts r.units scripts)
    (halt : Halt (startState r scripts, none) (scripts.flatMap tasksOf)) :
    ∃ fault span value, halt.stop = .fault fault span ∧
      evaluate r = (halt.reached.1.report
        (Interruption.report halt.task.unit fault span)).evaluating scripts.length value := by
  rcases evaluate_cases hnames with
    ⟨hnone, -⟩ | ⟨scripts', hscripts', ⟨q, hq, -⟩ | ⟨i, fault, span, hstop, heval⟩⟩
  · exact absurd hscripts (hnone scripts)
  · obtain rfl := hscripts.unique hscripts'
    exact absurd (halt.performAll_eq_error.symm.trans hq) (by simp)
  · obtain rfl := hscripts.unique hscripts'
    obtain ⟨halt', hunit, hreached, hstop'⟩ := i.exists_halt
    obtain rfl := halt.unique halt'
    exact ⟨fault, span, i.reached.2, hstop'.trans hstop, by rw [heval, hunit, hreached]⟩

/-- A statement that stops at a fault ends the evaluation with a report of it. -/
theorem ArrivesAt.exists_evaluate_of_stop {before after : List ParsedUnit} {u : ParsedUnit}
    {st : Statement Value} {q : Progress} (h : ArrivesAt r before u after st q)
    (hnames : (r.units.map (·.name)).Nodup) {fault : Fault} {span : Span}
    (hstop : (Task.statement u st).perform q.1 = .error (.fault fault span)) :
    ∃ value, evaluate r = (q.1.report (Interruption.report u fault span)).evaluating
      (before ++ u :: after).length value := by
  obtain ⟨halt, htask, rfl, hfault⟩ := h.exists_halt hstop
  obtain ⟨fault', span', value, hfault', heval⟩ := evaluate_of_halt hnames h.scripts halt
  obtain ⟨rfl, rfl⟩ := Stop.fault.inj (hfault.symm.trans hfault')
  rw [htask] at heval
  exact ⟨value, heval⟩

/-- The last moment of an evaluation: what can be performed has been performed. -/
structure EndsAt (r : Request) (scripts : List ParsedUnit) (e : Evaluation) (done : List Task)
    (q : Progress) : Prop where
  performed : performAll (startState r scripts, none) done = .ok q
  begins : done <+: scripts.flatMap tasksOf
  last : ∀ xs p, xs <+: scripts.flatMap tasksOf →
    performAll (startState r scripts, none) xs = .ok p → xs <+: done
  namespaces : e.namespaces = q.1.environment.namespaces
  events : ∃ entered total, (evaluate r).events = q.1.events ++ [.finished entered total]

/-- An evaluation ends with the output and the diagnostics of its last moment, and with the report
of a fault if one breaks it off. -/
theorem exists_endsAt_reported (hnames : (r.units.map (·.name)).Nodup)
    (hscripts : AreScripts r.units scripts) :
    ∃ (e : Evaluation) (done : List Task) (q : Progress) (report? : Option Diagnostic),
      (evaluate r).outcome = .ok e ∧ EndsAt r scripts e done q ∧ e.output = q.1.output ∧
      e.diagnostics = q.1.diagnostics ++ report?.toList ∧ ∀ d ∈ report?, d.severity = .error := by
  cases h : performAll (startState r scripts, none) (scripts.flatMap tasksOf) with
  | ok q =>
    have heval := evaluate_of_performAll hnames hscripts h
    exact ⟨_, _, q, none, by rw [heval]; rfl, ⟨h, List.prefix_rfl, fun _ _ hxs _ => hxs, rfl, _, _,
      by rw [heval]; rfl⟩, rfl, (List.append_nil _).symm, by simp⟩
  | error stop =>
    obtain ⟨halt, -⟩ := exists_halt h
    obtain ⟨fault, span, value, -, heval⟩ := evaluate_of_halt hnames hscripts halt
    have hbegins : halt.before <+: scripts.flatMap tasksOf := ⟨_, halt.tasks_eq.symm⟩
    refine ⟨_, _, halt.reached, some (Interruption.report halt.task.unit fault span),
      by rw [heval]; rfl, ⟨halt.performed, hbegins, fun _ _ hxs hp => halt.begins_before hxs hp,
        rfl, _, _, by rw [heval]; rfl⟩, rfl, rfl, ?_⟩
    intro d hd
    obtain rfl := Option.some.inj hd
    rfl

theorem exists_endsAt (hnames : (r.units.map (·.name)).Nodup)
    (hscripts : AreScripts r.units scripts) :
    ∃ e done q, (evaluate r).outcome = .ok e ∧ EndsAt r scripts e done q := by
  obtain ⟨e, done, q, -, he, hends, -⟩ := exists_endsAt_reported hnames hscripts
  exact ⟨e, done, q, he, hends⟩

end Ends

theorem started_mem_perform_iff {s : State} {t : Task} {q : Progress} (h : t.perform s = .ok q)
    (name : String) (path : Path) : .started name path ∈ q.1.events ↔
      .started name path ∈ s.events ∨ ∃ u, t = .start u ∧ u.1.name = name ∧ u.1.path = path := by
  cases t with
  | start u =>
    obtain ⟨-, rfl⟩ := perform_start_eq_ok h
    simp [State.record, eq_comm]
  | statement u st =>
    cases st with
    | val n e span =>
      obtain ⟨v, own, -, -, -, -, hevents, -⟩ := perform_val_eq_ok h
      simp [hevents]
    | print e span =>
      obtain ⟨v, line, -, -, rfl⟩ := perform_print_eq_ok h
      simp [State.print, State.record]
    | expression e span =>
      obtain ⟨v, -, rfl⟩ := perform_expression_eq_ok.1 h
      simp

theorem started_mem_performAll_iff {p q : Progress} {tasks : List Task}
    (h : performAll p tasks = .ok q) (name : String) (path : Path) :
    .started name path ∈ q.1.events ↔ .started name path ∈ p.1.events ∨
      ∃ u, .start u ∈ tasks ∧ u.1.name = name ∧ u.1.path = path := by
  induction tasks generalizing p with
  | nil =>
    obtain rfl := Except.ok.inj h
    simp
  | cons t ts ih =>
    obtain ⟨p', ht, hts⟩ := performAll_cons_eq_ok.1 h
    rw [ih hts, started_mem_perform_iff ht, or_assoc]
    simp only [List.mem_cons, or_and_right, exists_or, eq_comm]

/-- In front of the start of a unit stand all tasks of the units before it. -/
theorem exists_split_of_start {units : List ParsedUnit} {u : ParsedUnit} {xs ys : List Task}
    (h : units.flatMap tasksOf = xs ++ .start u :: ys) :
    ∃ before after, units = before ++ u :: after ∧ xs = before.flatMap tasksOf := by
  induction units generalizing xs with
  | nil => simp at h
  | cons v units ih =>
    rw [List.flatMap_cons, tasksOf, List.cons_append] at h
    cases xs with
    | nil =>
      obtain ⟨hstart, -⟩ := List.cons.inj h
      obtain rfl := Task.start.inj hstart
      exact ⟨[], units, rfl, rfl⟩
    | cons t xs =>
      obtain ⟨rfl, htail⟩ := List.cons.inj h
      rcases List.append_eq_append_iff.1 htail with ⟨rest, rfl, hrest⟩ | ⟨rest, hstatements, hrest⟩
      · obtain ⟨before, after, rfl, rfl⟩ := ih hrest
        exact ⟨v :: before, after, rfl, rfl⟩
      · cases rest with
        | nil =>
          have hunits : units.flatMap tasksOf = [] ++ .start u :: ys := hrest.symm
          obtain ⟨before, after, rfl, hnil⟩ := ih hunits
          exact ⟨v :: before, after, rfl, by simp [← hnil, tasksOf, hstatements]⟩
        | cons t rest =>
          obtain ⟨rfl, -⟩ := List.cons.inj hrest
          have hmem : .start u ∈ v.2.statements.map (Task.statement v) := by
            rw [hstatements]
            simp
          simp at hmem

theorem exists_perform_start {s : State} {u : ParsedUnit}
    (hnew : u.1.name ∉ s.environment.namespaces.keys) :
    ∃ q, (Task.start u).perform s = .ok q := by
  have hcontains : s.environment.namespaces.contains u.1.name = false := by
    rwa [← Bool.not_eq_true, Table.contains_iff_mem_keys]
  simp [Task.perform, Environment.enter, hcontains]

section Starts

variable [CharacterNames] {r : Request} {before after : List ParsedUnit} {u : ParsedUnit}
  {p : Progress}

theorem Starts.keys_namespaces (h : Starts r before u after p) :
    p.1.environment.namespaces.keys = before.map (·.1.name) := by
  have hstart : (startState r (before ++ u :: after)).environment.namespaces.keys = [] := rfl
  rw [(extends_performAll h.performed).keys, hstart, started_units, List.nil_append]

theorem Starts.new (h : Starts r before u after p) (hnames : (r.units.map (·.name)).Nodup) :
    u.1.name ∉ p.1.environment.namespaces.keys := by
  rw [h.keys_namespaces]
  rw [← h.scripts.map_name, List.map_append] at hnames
  exact fun hmem => (List.nodup_append.1 hnames).2.2 _ hmem _ List.mem_cons_self rfl

/-- The units that start are those that the log says to be running. -/
theorem started_mem_events_iff (hnames : (r.units.map (·.name)).Nodup) (name : String)
    (path : Path) : .started name path ∈ (evaluate r).events ↔
      ∃ before u after p, Starts r before u after p ∧ u.1.name = name ∧ u.1.path = path := by
  rcases evaluate_cases hnames with ⟨hnone, heval⟩ | ⟨scripts, hscripts, -⟩
  · rw [heval]
    refine iff_of_false List.not_mem_nil ?_
    rintro ⟨before, u, after, p, h, -⟩
    exact hnone _ h.scripts
  obtain ⟨e, done, q, -, hends⟩ := exists_endsAt hnames hscripts
  obtain ⟨entered, total, hevents⟩ := hends.events
  obtain ⟨rest, hrest⟩ := hends.begins
  have hstart : .started name path ∉ (startState r scripts).events := List.not_mem_nil
  have hmem : .started name path ∈ (evaluate r).events ↔
      ∃ u, .start u ∈ done ∧ u.1.name = name ∧ u.1.path = path := by
    rw [hevents, List.mem_append, started_mem_performAll_iff hends.performed, or_iff_right hstart]
    simp
  rw [hmem]
  constructor
  · rintro ⟨u, hu, hname, hpath⟩
    obtain ⟨xs, ys, rfl⟩ := List.append_of_mem hu
    rw [List.append_assoc, List.cons_append] at hrest
    obtain ⟨before, after, rfl, rfl⟩ := exists_split_of_start hrest.symm
    obtain ⟨p, hp, -⟩ := performAll_append_eq_ok.1 hends.performed
    exact ⟨before, u, after, p, ⟨hscripts, hp⟩, hname, hpath⟩
  · rintro ⟨before, u, after, p, h, hname, hpath⟩
    obtain rfl := hscripts.unique h.scripts
    obtain ⟨q', hq'⟩ := exists_perform_start (h.new hnames)
    have hperformed : performAll (startState r (before ++ u :: after), none)
        (before.flatMap tasksOf ++ [.start u]) = .ok q' := by
      rw [performAll_append_of_ok h.performed, performAll_cons_of_ok hq']
      rfl
    have hbegins : before.flatMap tasksOf ++ [.start u] <+:
        (before ++ u :: after).flatMap tasksOf :=
      ⟨u.2.statements.map (.statement u) ++ after.flatMap tasksOf, by simp [tasksOf]⟩
    exact ⟨u, (hends.last _ _ hbegins hperformed).subset (by simp), hname, hpath⟩

end Starts

end Interpreter

end ScriptRunner
