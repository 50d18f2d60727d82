import ScriptRunner.Proofs.Environment
import ScriptRunner.Proofs.Interpreter.Tasks
import ScriptRunner.Proofs.Outcomes

/-!
# What tasks do

A task changes the environment, prints and warns, or it cannot be performed. Units with distinct
names never use the environment in a wrong way: if they break off, then at a fault of a script.

## Main definitions

* `FailsAt` - the evaluation of an expression breaks off at one of its parts.

## Main statements

* `perform_start_eq_ok`, `perform_val_eq_ok`, `perform_print_eq_ok`, `perform_expression_eq_ok` -
  what a task has done once it has been performed.
* `eval_eq_error_iff` - where the evaluation of an expression breaks off.
* `extends_performAll` - what tasks leave as it is or only add to.
* `Interruption.exists_fault` - units with distinct names break off at a fault.
-/

namespace ScriptRunner

/-- The expression of a statement. -/
def Script.Statement.body {L : Type} : Script.Statement L → Script.Expr L
  | val _ e _ | print e _ | expression e _ => e

namespace Interpreter

open Script

variable {s : State} {t : Task} {q : Progress} {u : ParsedUnit}

theorem perform_start_eq_ok (h : (Task.start u).perform s = .ok q) :
    u.1.name ∉ s.environment.namespaces.keys ∧
      q = ({ s with environment :=
              { s.environment with
                namespaces := s.environment.namespaces.insert u.1.name .empty } }.record
            (.started u.1.name u.1.path), none) := by
  unfold Task.perform Environment.enter at h
  by_cases hin : s.environment.namespaces.contains u.1.name
  · simp [hin] at h
  · refine ⟨fun hmem => hin ((Table.contains_iff_mem_keys _ _).2 hmem), ?_⟩
    simpa [hin] using h.symm

theorem perform_val_eq_ok {name : String} {e : Expr Value} {span : Span}
    (h : (Task.statement u (.val name e span)).perform s = .ok q) :
    ∃ v own, eval s.environment u.1.name e = .ok v ∧
      s.environment.namespaces.find? u.1.name = some own ∧
      q.1.environment = { s.environment with
        namespaces := s.environment.namespaces.insert u.1.name (own.insert name v) } ∧
      q.1.output = s.output ∧ q.1.events = s.events ∧
      q.1.diagnostics = s.diagnostics ++ (if own.contains name then
        [rebindingWarning u.1.name name (Location.ofSpan u.2.file span)] else []) ∧ q.2 = none := by
  obtain ⟨v, hv, h⟩ := bind_eq_ok h
  obtain ⟨⟨environment, rebound⟩, hbind, h⟩ := bind_eq_ok h
  obtain ⟨own, hown, rfl, rfl⟩ := Environment.bind_eq_ok (mapError_eq_ok.1 hbind)
  obtain rfl := Except.ok.inj h
  refine ⟨v, own, hv, hown, ?_⟩
  by_cases hbound : own.contains name <;> simp [hbound, State.report]

theorem perform_print_eq_ok {e : Expr Value} {span : Span}
    (h : (Task.statement u (.print e span)).perform s = .ok q) :
    ∃ v line, eval s.environment u.1.name e = .ok v ∧ v.text? = some line ∧
      q = (s.print line, none) := by
  obtain ⟨v, hv, h⟩ := bind_eq_ok h
  cases hline : v.text? with
  | none => simp [hline] at h
  | some line =>
    simp only [hline] at h
    exact ⟨v, line, hv, hline, (Except.ok.inj h).symm⟩

theorem perform_expression_eq_ok {e : Expr Value} {span : Span} :
    (Task.statement u (.expression e span)).perform s = .ok q ↔
      ∃ v, eval s.environment u.1.name e = .ok v ∧ q = (s, some v) := by
  constructor
  · intro h
    obtain ⟨v, hv, h⟩ := bind_eq_ok h
    exact ⟨v, hv, (Except.ok.inj h).symm⟩
  · rintro ⟨v, hv, rfl⟩
    simp [Task.perform, execute, hv, bind, Except.bind, pure, Except.pure]

/-- The names of the units that a task starts. -/
def Task.started : Task → List String
  | start u => [u.1.name]
  | statement _ _ => []

/-- What every task leaves as it is or only adds to. -/
structure Extends (s s' : State) (started : List String) : Prop where
  dependencies : s'.environment.dependencies = s.environment.dependencies
  keys : s'.environment.namespaces.keys = s.environment.namespaces.keys ++ started
  diagnostics : ∃ warnings, s'.diagnostics = s.diagnostics ++ warnings ∧
    ∀ d ∈ warnings, ∃ unit name location, d = rebindingWarning unit name location

theorem Extends.refl (s : State) : Extends s s [] :=
  ⟨rfl, (List.append_nil _).symm, [], (List.append_nil _).symm, by simp⟩

theorem Extends.trans {s s' s'' : State} {names names' : List String} (h : Extends s s' names)
    (h' : Extends s' s'' names') : Extends s s'' (names ++ names') := by
  refine ⟨h'.dependencies.trans h.dependencies, ?_, ?_⟩
  · rw [h'.keys, h.keys, List.append_assoc]
  · obtain ⟨warnings, heq, hall⟩ := h.diagnostics
    obtain ⟨warnings', heq', hall'⟩ := h'.diagnostics
    refine ⟨warnings ++ warnings', by rw [heq', heq, List.append_assoc], fun d hd => ?_⟩
    exact (List.mem_append.1 hd).elim (hall d) (hall' d)

theorem extends_perform (h : t.perform s = .ok q) : Extends s q.1 t.started := by
  cases t with
  | start u =>
    obtain ⟨hnew, rfl⟩ := perform_start_eq_ok h
    exact ⟨rfl, Table.keys_insert_of_not_mem _ hnew, [], (List.append_nil _).symm, by simp⟩
  | statement u st =>
    cases st with
    | val name e span =>
      obtain ⟨v, own, -, hown, henv, -, -, hdiagnostics, -⟩ := perform_val_eq_ok h
      refine ⟨by rw [henv], ?_, _, hdiagnostics, fun d hd => ?_⟩
      · rw [henv, Task.started, List.append_nil]
        exact Table.keys_insert_of_mem _ (Table.mem_keys_of_find? hown)
      · split at hd
        · exact ⟨_, _, _, List.mem_singleton.1 hd⟩
        · simp at hd
    | print e span =>
      obtain ⟨v, line, -, -, rfl⟩ := perform_print_eq_ok h
      exact ⟨rfl, (List.append_nil _).symm, [], (List.append_nil _).symm, by simp⟩
    | expression e span =>
      obtain ⟨v, -, rfl⟩ := perform_expression_eq_ok.1 h
      exact .refl s

/-- Tasks add the namespaces of the units that they start, and warnings about new values. -/
theorem extends_performAll {p q : Progress} {tasks : List Task}
    (h : performAll p tasks = .ok q) : Extends p.1 q.1 (tasks.flatMap Task.started) := by
  induction tasks generalizing p with
  | nil =>
    obtain rfl := Except.ok.inj h
    exact .refl p.1
  | cons t ts ih =>
    obtain ⟨p', ht, hts⟩ := performAll_cons_eq_ok.1 h
    exact (extends_perform ht).trans (ih hts)

@[simp] theorem started_statements (u : ParsedUnit) (sts : List (Statement Value)) :
    (sts.map (Task.statement u)).flatMap Task.started = [] := by
  simp [List.flatMap_eq_nil_iff, Task.started]

@[simp] theorem started_tasksOf (u : ParsedUnit) :
    (tasksOf u).flatMap Task.started = [u.1.name] := by
  rw [tasksOf, List.flatMap_cons, started_statements]
  rfl

@[simp] theorem started_units (units : List ParsedUnit) :
    (units.flatMap tasksOf).flatMap Task.started = units.map (·.1.name) := by
  rw [List.flatMap_assoc]
  simp [List.map_eq_flatMap]

/-- The evaluation of an expression breaks off at one of its parts, after the operands before it
have been evaluated. -/
inductive FailsAt (env : Environment) (unit : String) : Expr Value → Stop → Prop
  | name {n : String} {span : Span} {fault : LookupFault} (h : env.lookup unit n = .error fault) :
      FailsAt env unit (.name n span) (.ofLookup span fault)
  | member {owner n : String} {span : Span} {fault : ReferenceFault}
      (h : env.member owner n = .error fault) :
      FailsAt env unit (.member owner n span) (.ofReference span fault)
  | operand {e : Expr Value} {span : Span} {stop : Stop} (h : FailsAt env unit e stop) :
      FailsAt env unit (.negate e span) stop
  | negate {e : Expr Value} {span : Span} {v : Value} {fault : OperatorFault}
      (hv : eval env unit e = .ok v) (h : negate v = .error fault) :
      FailsAt env unit (.negate e span) (.ofOperator span fault)
  | left {op : Operator} {l r : Expr Value} {span : Span} {stop : Stop}
      (h : FailsAt env unit l stop) : FailsAt env unit (.binary op l r span) stop
  | right {op : Operator} {l r : Expr Value} {span : Span} {v : Value} {stop : Stop}
      (hl : eval env unit l = .ok v) (h : FailsAt env unit r stop) :
      FailsAt env unit (.binary op l r span) stop
  | apply {op : Operator} {l r : Expr Value} {span : Span} {v w : Value} {fault : OperatorFault}
      (hl : eval env unit l = .ok v) (hr : eval env unit r = .ok w)
      (h : op.apply v w = .error fault) :
      FailsAt env unit (.binary op l r span) (.ofOperator span fault)

theorem eval_of_failsAt {env : Environment} {unit : String} {e : Expr Value} {stop : Stop}
    (h : FailsAt env unit e stop) : eval env unit e = .error stop := by
  induction h with
  | name h | member h => simp [eval, h, Except.mapError]
  | operand _ ih | left _ ih => simp [eval, ih, bind, Except.bind]
  | negate hv h => simp [eval, hv, h, bind, Except.bind, Except.mapError]
  | right hl _ ih => simp [eval, hl, ih, bind, Except.bind]
  | apply hl hr h => simp [eval, hl, hr, h, bind, Except.bind, Except.mapError]

/-- An expression without a value breaks off at one of its parts. -/
theorem eval_eq_error_iff {env : Environment} {unit : String} {e : Expr Value} {stop : Stop} :
    eval env unit e = .error stop ↔ FailsAt env unit e stop := by
  refine ⟨fun h => ?_, eval_of_failsAt⟩
  induction e with
  | literal v span => simp [eval] at h
  | name n span =>
    obtain ⟨fault, hfault, rfl⟩ := mapError_eq_error.1 h
    exact .name hfault
  | member owner n span =>
    obtain ⟨fault, hfault, rfl⟩ := mapError_eq_error.1 h
    exact .member hfault
  | binary op l r span ihl ihr =>
    rcases bind_eq_error h with hl | ⟨v, hl, h⟩
    · exact .left (ihl hl)
    rcases bind_eq_error h with hr | ⟨w, hr, h⟩
    · exact .right hl (ihr hr)
    obtain ⟨fault, hfault, rfl⟩ := mapError_eq_error.1 h
    exact .apply hl hr hfault
  | negate e span ih =>
    rcases bind_eq_error h with hv | ⟨v, hv, h⟩
    · exact .operand (ih hv)
    obtain ⟨fault, hfault, rfl⟩ := mapError_eq_error.1 h
    exact .negate hv hfault

/-- A name is looked up in a wrong way only for a unit that has not been entered. -/
theorem FailsAt.not_mem_keys {env : Environment} {unit : String} {e : Expr Value} {stop : Stop}
    (h : FailsAt env unit e stop) {fault : UnitFault} (hstop : stop = .misuse fault) :
    unit ∉ env.namespaces.keys := by
  induction h with
  | name h =>
    rcases Environment.lookup_eq_error_iff.1 h with ⟨hnot, -⟩ | ⟨own, -, -, -, rfl⟩
    · exact hnot
    · simp [Stop.ofLookup, Stop.ofReference] at hstop
  | operand _ ih | left _ ih => exact ih hstop
  | right _ _ ih => exact ih hstop
  | _ => simp [Stop.ofOperator, Stop.ofReference] at hstop

/-- A statement of a unit that has been entered stops at a part of its expression, or because it
prints an integer that is too long. -/
theorem perform_statement_eq_error {st : Statement Value} {stop : Stop}
    (hentered : u.1.name ∈ s.environment.namespaces.keys)
    (h : (Task.statement u st).perform s = .error stop) :
    FailsAt s.environment u.1.name st.body stop ∨ ∃ span, stop = .ofOperator span .tooLong := by
  rw [← eval_eq_error_iff]
  cases st with
  | val name e span =>
    rcases bind_eq_error h with hv | ⟨v, hv, h⟩
    · exact .inl hv
    -- The unit has a namespace, so the value can be bound.
    obtain ⟨own, hown⟩ := Table.exists_find?_of_mem_keys hentered
    rcases bind_eq_error h with hbind | ⟨⟨environment, rebound⟩, -, h⟩
    · simp [Environment.bind, hown, Except.mapError] at hbind
    · simp [pure, Except.pure] at h
  | print e span =>
    rcases bind_eq_error h with hv | ⟨v, hv, h⟩
    · exact .inl hv
    cases hline : v.text? with
    | some line => simp [hline, pure, Except.pure] at h
    | none =>
      simp only [hline] at h
      exact .inr ⟨span, (Except.error.inj h).symm⟩
  | expression e span =>
    rcases bind_eq_error h with hv | ⟨v, hv, h⟩
    · exact .inl hv
    · simp [pure, Except.pure] at h

/-- A statement whose expression has no value stops where the expression breaks off. -/
theorem perform_of_failsAt {st : Statement Value} {stop : Stop}
    (h : FailsAt s.environment u.1.name st.body stop) :
    (Task.statement u st).perform s = .error stop := by
  have heval := eval_of_failsAt h
  cases st <;> simp only [Statement.body] at heval <;>
    simp [Task.perform, execute, heval, bind, Except.bind]

/-- A unit whose name is new is started, so it can only break off at one of its statements. -/
theorem Halt.exists_statement {p : Progress} (halt : Halt p (tasksOf u))
    (hnew : u.1.name ∉ p.1.environment.namespaces.keys) :
    ∃ init st rest, u.2.statements = init ++ st :: rest ∧
      halt.before = .start u :: init.map (.statement u) ∧ halt.task = .statement u st := by
  obtain ⟨before, task, after, reached, stop, heq, hperformed, hstopped⟩ := halt
  cases before with
  | nil =>
    obtain ⟨rfl, -⟩ := List.cons.inj heq
    obtain rfl := Except.ok.inj hperformed
    have hcontains : p.1.environment.namespaces.contains u.1.name = false := by
      rwa [← Bool.not_eq_true, Table.contains_iff_mem_keys]
    simp [Task.perform, Environment.enter, hcontains] at hstopped
  | cons t before =>
    obtain ⟨rfl, htail⟩ := List.cons.inj heq
    obtain ⟨init, last, hstatements, rfl, hlast⟩ := List.map_eq_append_iff.1 htail
    obtain ⟨st, rest, rfl, rfl, -⟩ := List.map_eq_cons_iff.1 hlast
    exact ⟨init, st, rest, hstatements, rfl, rfl⟩

namespace Interruption

variable {p : Progress} {units : List ParsedUnit}

/-- The units before the one that breaks off are those with a namespace. -/
theorem keys_reached (i : Interruption p units) (hp : p.1.environment.namespaces.keys = []) :
    i.reached.1.environment.namespaces.keys = i.before.map (·.1.name) := by
  rw [(extends_performAll i.performed).keys, hp, started_units, List.nil_append]

/-- A unit whose name is new breaks off at one of its statements, with a fault: a part of its
expression has no value, or it prints an integer that is too long. -/
theorem exists_fault_of_new (i : Interruption p units)
    (hnew : i.unit.1.name ∉ i.reached.1.environment.namespaces.keys) :
    ∃ init st rest fault span, i.unit.2.statements = init ++ st :: rest ∧
      performAll i.reached (.start i.unit :: init.map (.statement i.unit)) = .ok i.halt.reached ∧
      i.halt.stop = .fault fault span ∧
      (FailsAt i.halt.reached.1.environment i.unit.1.name st.body (.fault fault span) ∨
        fault = .operator .tooLong) := by
  obtain ⟨init, st, rest, hstatements, hbefore, htask⟩ := i.halt.exists_statement hnew
  have hperformed := hbefore ▸ i.halt.performed
  -- The unit has its namespace by then, so no use of the environment is wrong.
  have hentered : i.unit.1.name ∈ i.halt.reached.1.environment.namespaces.keys := by
    rw [(extends_performAll hperformed).keys, List.flatMap_cons, started_statements,
      List.append_nil]
    exact List.mem_append_right _ List.mem_cons_self
  have hstopped := i.halt.stopped
  rw [htask] at hstopped
  rcases perform_statement_eq_error hentered hstopped with hfails | ⟨span, hlong⟩
  · cases hstop : i.halt.stop with
    | misuse f => exact absurd hentered (hfails.not_mem_keys hstop)
    | fault fault span =>
      exact ⟨init, st, rest, fault, span, hstatements, hperformed, rfl, .inl (hstop ▸ hfails)⟩
  · exact ⟨init, st, rest, _, span, hstatements, hperformed, hlong, .inr rfl⟩

/-- Of units with distinct names, the one that breaks off has not been entered before. -/
theorem new (i : Interruption p units) (hp : p.1.environment.namespaces.keys = [])
    (hnames : (units.map (·.1.name)).Nodup) :
    i.unit.1.name ∉ i.reached.1.environment.namespaces.keys := by
  rw [i.keys_reached hp]
  rw [i.units_eq, List.map_append, List.map_cons] at hnames
  exact fun hmem => (List.nodup_append.1 hnames).2.2 _ hmem _ List.mem_cons_self rfl

/-- Units with distinct names break off at a statement of one of them, with a fault. -/
theorem exists_fault (i : Interruption p units) (hp : p.1.environment.namespaces.keys = [])
    (hnames : (units.map (·.1.name)).Nodup) :
    ∃ init st rest fault span, i.unit.2.statements = init ++ st :: rest ∧
      performAll i.reached (.start i.unit :: init.map (.statement i.unit)) = .ok i.halt.reached ∧
      i.halt.stop = .fault fault span ∧
      (FailsAt i.halt.reached.1.environment i.unit.1.name st.body (.fault fault span) ∨
        fault = .operator .tooLong) :=
  i.exists_fault_of_new (i.new hp hnames)

end Interruption

end Interpreter

end ScriptRunner
