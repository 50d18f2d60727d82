import ScriptRunner.Proofs.Interpreter.Moments

/-!
# Runs that agree

What a unit does depends on the namespaces of the units that it refers to: its own, those of its
imports, and those of the owners of its qualified names. Where two states agree on these, a task of
the unit stops in both for the same reason, or it does the same in both, and they agree afterwards.

## Main definitions

* `Expr.owners`, `Program.owners` - the owners of qualified names.
* `AgreesOn` - two environments have the same namespaces for some units.
* `RefersTo` - a task refers to some units only.
* `Alike` - two outcomes of a task are the same for these units.

## Main statements

* `eval_congr` - an expression has the same value in environments that agree.
* `alike_perform`, `alike_performAll` - so do tasks, and tasks one after the other.
* `begins_performAll` - tasks only add to what has been printed and reported.
-/

namespace ScriptRunner

/-- The owners of the qualified names in an expression. -/
def Script.Expr.owners {L : Type} : Script.Expr L → List String
  | literal .. | name .. => []
  | member owner _ _ => [owner]
  | binary _ left right _ => left.owners ++ right.owners
  | negate operand _ => operand.owners

/-- The owners of the qualified names in a script. -/
def Script.Program.owners (p : Script.Program) : List String :=
  p.statements.flatMap (·.body.owners)

namespace Interpreter

open Script

/-- In two environments all units have the same imports, and some have the same namespaces. -/
structure AgreesOn (units : String → Prop) (env env' : Environment) : Prop where
  dependencies : ∀ d, env.dependencies.find? d = env'.dependencies.find? d
  namespaces : ∀ d, units d → env.namespaces.find? d = env'.namespaces.find? d

section

variable {units : String → Prop} {env env' : Environment} {unit : String}

theorem AgreesOn.contains (h : AgreesOn units env env') {d : String} (hd : units d) :
    env.namespaces.contains d = env'.namespaces.contains d := by
  rw [Table.contains, Table.contains, h.namespaces d hd]

theorem firstBinding_congr_of_agrees (h : AgreesOn units env env') (name : String)
    {imports : List String} (himports : ∀ d ∈ imports, units d) :
    env.firstBinding name imports = env'.firstBinding name imports := by
  unfold Environment.firstBinding
  induction imports with
  | nil => rfl
  | cons d imports ih =>
    obtain ⟨hd, himports⟩ := List.forall_mem_cons.1 himports
    rw [List.findSome?_cons, List.findSome?_cons, h.namespaces d hd, ih himports]

theorem lookup_congr (h : AgreesOn units env env') (hunit : units unit)
    (himports : ∀ d ∈ env.importsOf unit, units d) (name : String) :
    env.lookup unit name = env'.lookup unit name := by
  have hfirst := firstBinding_congr_of_agrees h name himports
  have hsame : env'.importsOf unit = env.importsOf unit := by
    rw [Environment.importsOf, Environment.importsOf, h.dependencies]
  rw [Environment.lookup, Environment.lookup, h.namespaces unit hunit, hfirst, hsame]

theorem member_congr (h : AgreesOn units env env') {owner : String} (howner : units owner)
    (name : String) : env.member owner name = env'.member owner name := by
  rw [Environment.member, Environment.member, h.namespaces owner howner, Table.contains,
    Table.contains, h.dependencies]

/-- An expression has the same value, or breaks off for the same reason, in environments that agree
on the units that it may refer to. -/
theorem eval_congr (h : AgreesOn units env env') (hunit : units unit)
    (himports : ∀ d ∈ env.importsOf unit, units d) {e : Expr Value}
    (howners : ∀ d ∈ e.owners, units d) : eval env unit e = eval env' unit e := by
  induction e with
  | literal v span => rfl
  | name n span => rw [eval, eval, lookup_congr h hunit himports]
  | member owner n span => rw [eval, eval, member_congr h (howners owner List.mem_cons_self)]
  | binary op l r span ihl ihr =>
    rw [eval, eval, ihl fun d hd => howners d (List.mem_append_left _ hd),
      ihr fun d hd => howners d (List.mem_append_right _ hd)]
  | negate e span ih => rw [eval, eval, ih howners]

end

/-- The owners of the qualified names in a task. -/
def Task.owners : Task → List String
  | start _ => []
  | statement _ st => st.body.owners

/-- A task refers to some units only: the unit that it is part of, the imports of this unit, and the
owners of its qualified names. -/
structure RefersTo (dependencies : Table String (List String)) (units : String → Prop) (t : Task) :
    Prop where
  own : units t.unit.1.name
  imports : ∀ d ∈ (dependencies.find? t.unit.1.name).getD [], units d
  owners : ∀ d ∈ t.owners, units d

theorem refersTo_of_mem_tasksOf {dependencies : Table String (List String)} {units : String → Prop}
    {u : ParsedUnit} (hown : units u.1.name)
    (himports : ∀ d ∈ (dependencies.find? u.1.name).getD [], units d)
    (howners : ∀ d ∈ u.2.owners, units d) : ∀ t ∈ tasksOf u, RefersTo dependencies units t := by
  intro t ht
  have hunit := unit_of_mem_tasksOf ht
  refine ⟨by rwa [hunit], by rwa [hunit], fun d hd => ?_⟩
  rcases List.mem_cons.1 ht with rfl | ht
  · simp [Task.owners] at hd
  · obtain ⟨st, hst, rfl⟩ := List.mem_map.1 ht
    exact howners d (List.mem_flatMap.2 ⟨st, hst, hd⟩)

/-- Two outcomes from two states are the same for some units: both are the same stop, or both states
have got the same lines and warnings and agree on these units. -/
inductive Alike (units : String → Prop) (s s' : State) :
    Except Stop Progress → Except Stop Progress → Prop
  | stop (stop : Stop) : Alike units s s' (.error stop) (.error stop)
  | ok {q q' : Progress} (lines : List ScriptText) (warnings : List Diagnostic)
    (agrees : AgreesOn units q.1.environment q'.1.environment) (value : q.2 = q'.2)
    (output : q.1.output = s.output ++ lines) (output' : q'.1.output = s'.output ++ lines)
    (diagnostics : q.1.diagnostics = s.diagnostics ++ warnings)
    (diagnostics' : q'.1.diagnostics = s'.diagnostics ++ warnings) :
    Alike units s s' (.ok q) (.ok q')

section

variable {units : String → Prop} {s s' : State}

theorem AgreesOn.insert {env env' : Environment} (h : AgreesOn units env env') (unit : String)
    (own : Namespace) : AgreesOn units
      { env with namespaces := env.namespaces.insert unit own }
      { env' with namespaces := env'.namespaces.insert unit own } where
  dependencies := h.dependencies
  namespaces d hd := by rw [Table.find?_insert, Table.find?_insert, h.namespaces d hd]

/-- Nothing but the environments has to agree. -/
theorem Alike.of_agrees {q q' : Progress}
    (agrees : AgreesOn units q.1.environment q'.1.environment) (value : q.2 = q'.2)
    (output : q.1.output = s.output ∧ q'.1.output = s'.output)
    (diagnostics : q.1.diagnostics = s.diagnostics ∧ q'.1.diagnostics = s'.diagnostics) :
    Alike units s s' (.ok q) (.ok q') :=
  .ok [] [] agrees value (by simpa using output.1) (by simpa using output.2)
    (by simpa using diagnostics.1) (by simpa using diagnostics.2)

/-- Outcomes from later states, which have got the same lines and warnings. -/
theorem Alike.of_later {t t' : State} {x x' : Except Stop Progress} {lines : List ScriptText}
    {warnings : List Diagnostic} (h : Alike units t t' x x')
    (output : t.output = s.output ++ lines ∧ t'.output = s'.output ++ lines)
    (diagnostics : t.diagnostics = s.diagnostics ++ warnings ∧
      t'.diagnostics = s'.diagnostics ++ warnings) : Alike units s s' x x' := by
  cases h with
  | stop stop => exact .stop stop
  | ok lines' warnings' agrees value houtput houtput' hdiagnostics hdiagnostics' =>
    refine .ok (lines ++ lines') (warnings ++ warnings') agrees value ?_ ?_ ?_ ?_
    · rw [houtput, output.1, List.append_assoc]
    · rw [houtput', output.2, List.append_assoc]
    · rw [hdiagnostics, diagnostics.1, List.append_assoc]
    · rw [hdiagnostics', diagnostics.2, List.append_assoc]

theorem alike_start (h : AgreesOn units s.environment s'.environment) {u : ParsedUnit}
    (hown : units u.1.name) :
    Alike units s s' ((Task.start u).perform s) ((Task.start u).perform s') := by
  simp only [Task.perform, Environment.enter, h.contains hown]
  cases s'.environment.namespaces.contains u.1.name with
  | true => exact .stop _
  | false => exact .of_agrees (h.insert u.1.name .empty) rfl ⟨rfl, rfl⟩ ⟨rfl, rfl⟩

/-- Where the value is the same, a name gets the same new value, with the same warning. -/
theorem alike_val (h : AgreesOn units s.environment s'.environment) {u : ParsedUnit}
    (hown : units u.1.name) {name : String} {e : Expr Value} {span : Span}
    (heval : eval s.environment u.1.name e = eval s'.environment u.1.name e) :
    Alike units s s' ((Task.statement u (.val name e span)).perform s)
      ((Task.statement u (.val name e span)).perform s') := by
  simp only [Task.perform, execute, Environment.bind, ← heval, h.namespaces _ hown]
  cases eval s.environment u.1.name e with
  | error stop => exact .stop stop
  | ok v =>
    cases s'.environment.namespaces.find? u.1.name with
    | none => exact .stop _
    | some own =>
      have hagrees := h.insert u.1.name (own.insert name v)
      simp only [bind, Except.bind, Except.mapError, pure, Except.pure]
      cases own.contains name with
      | false => exact .of_agrees hagrees rfl ⟨rfl, rfl⟩ ⟨rfl, rfl⟩
      | true =>
        exact .ok [] [rebindingWarning u.1.name name (.ofSpan u.2.file span)] hagrees rfl
          (List.append_nil _).symm (List.append_nil _).symm rfl rfl

theorem alike_print (h : AgreesOn units s.environment s'.environment) {u : ParsedUnit}
    {e : Expr Value} {span : Span}
    (heval : eval s.environment u.1.name e = eval s'.environment u.1.name e) :
    Alike units s s' ((Task.statement u (.print e span)).perform s)
      ((Task.statement u (.print e span)).perform s') := by
  simp only [Task.perform, execute, ← heval]
  cases eval s.environment u.1.name e with
  | error stop => exact .stop stop
  | ok v =>
    cases hline : v.text? with
    | none =>
      simp only [bind, Except.bind, hline]
      exact .stop _
    | some line =>
      simp only [bind, Except.bind, hline]
      exact .ok [line] [] h rfl rfl rfl (List.append_nil _).symm (List.append_nil _).symm

theorem alike_expression (h : AgreesOn units s.environment s'.environment) {u : ParsedUnit}
    {e : Expr Value} {span : Span}
    (heval : eval s.environment u.1.name e = eval s'.environment u.1.name e) :
    Alike units s s' ((Task.statement u (.expression e span)).perform s)
      ((Task.statement u (.expression e span)).perform s') := by
  simp only [Task.perform, execute, ← heval]
  cases eval s.environment u.1.name e with
  | error stop => exact .stop stop
  | ok v => exact .of_agrees h rfl ⟨rfl, rfl⟩ ⟨rfl, rfl⟩

/-- A task has the same outcome in states that agree on the units that it refers to. -/
theorem alike_perform (h : AgreesOn units s.environment s'.environment) {t : Task}
    (ht : RefersTo s.environment.dependencies units t) :
    Alike units s s' (t.perform s) (t.perform s') := by
  cases t with
  | start u => exact alike_start h ht.own
  | statement u st =>
    have heval := eval_congr h ht.own ht.imports ht.owners
    cases st with
    | val name e span => exact alike_val h ht.own heval
    | print e span => exact alike_print h heval
    | expression e span => exact alike_expression h heval

/-- Tasks one after the other have the same outcome in states that agree on the units that they
refer to. -/
theorem alike_performAll (h : AgreesOn units s.environment s'.environment) (value : Option Value)
    {tasks : List Task} (htasks : ∀ t ∈ tasks, RefersTo s.environment.dependencies units t) :
    Alike units s s' (performAll (s, value) tasks) (performAll (s', value) tasks) := by
  induction tasks generalizing s s' value with
  | nil => exact .of_agrees h rfl ⟨rfl, rfl⟩ ⟨rfl, rfl⟩
  | cons t ts ih =>
    obtain ⟨ht, hts⟩ := List.forall_mem_cons.1 htasks
    have hfirst := alike_perform h ht
    generalize hp : t.perform s = x at hfirst
    generalize hp' : t.perform s' = x' at hfirst
    cases hfirst with
    | stop stop =>
      rw [performAll_cons_of_error hp, performAll_cons_of_error hp']
      exact .stop stop
    | @ok q q' lines warnings hagrees hvalue houtput houtput' hdiagnostics hdiagnostics' =>
      rw [performAll_cons_of_ok hp, performAll_cons_of_ok hp']
      rw [← (extends_perform hp).dependencies] at hts
      obtain ⟨t', value'⟩ := q'
      obtain rfl : q.2 = value' := hvalue
      exact (ih hagrees q.2 hts).of_later ⟨houtput, houtput'⟩ ⟨hdiagnostics, hdiagnostics'⟩

/-- A unit does the same in states that agree on the units that it refers to, whatever the value of
the task before it is. -/
theorem alike_unit {p p' : Progress} (h : AgreesOn units p.1.environment p'.1.environment)
    {u : ParsedUnit} (hu : ∀ t ∈ tasksOf u, RefersTo p.1.environment.dependencies units t) :
    Alike units p.1 p'.1 (performAll p (tasksOf u)) (performAll p' (tasksOf u)) :=
  alike_performAll h none hu

/-- Tasks only add to the output and the diagnostics. -/
theorem begins_performAll {p q : Progress} {tasks : List Task} (h : performAll p tasks = .ok q) :
    p.1.output <+: q.1.output ∧ p.1.diagnostics <+: q.1.diagnostics := by
  have hagrees : AgreesOn (fun _ => True) p.1.environment p.1.environment :=
    ⟨fun _ => rfl, fun _ _ => rfl⟩
  have halike : Alike (fun _ => True) p.1 p.1 (performAll p tasks) (performAll p tasks) :=
    alike_performAll hagrees p.2 fun _ _ => ⟨trivial, fun _ _ => trivial, fun _ _ => trivial⟩
  rw [h] at halike
  cases halike with
  | ok lines warnings _ _ houtput _ hdiagnostics _ =>
    exact ⟨⟨lines, houtput.symm⟩, ⟨warnings, hdiagnostics.symm⟩⟩

end

end Interpreter

end ScriptRunner
