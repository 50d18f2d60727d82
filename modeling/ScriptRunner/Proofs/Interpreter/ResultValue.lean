import Mathlib.Data.List.Nodup
import ScriptRunner.Proofs.Interpreter.Requests

/-!
# The value of an evaluation

An evaluation has the value of the last unit that has run to its end. When all units run to their
end, this unit is the root script. When a unit breaks off, it is the one directly before, and its
value stays although it does not belong to the root.

## Main definitions

* `Yields` - a unit runs to its end, and its last statement is an expression with a value.
* `RootYields`, `LeavesBehind` - the root script has a value, or the last unit before a fault has.

## Main statements

* `Interruption.reached_unique` - units break off in only one way.
* `value_of_root_iff` - the value is that of the root script unless a value is left behind.
-/

namespace ScriptRunner.Interpreter

open Script

/-- Two cuts of a list agree if a property holds in front of them and breaks at them. -/
theorem before_eq_of_breaks {α : Type} {P : List α → Prop} {before before' after after' : List α}
    {x x' : α} (heq : before ++ x :: after = before' ++ x' :: after') (h : P before)
    (h' : P before') (hx : ∀ rest, ¬ P (before ++ x :: rest))
    (hx' : ∀ rest, ¬ P (before' ++ x' :: rest)) : before = before' := by
  -- If one cut were further on, the property would still hold behind the other.
  rcases List.append_eq_append_iff.1 heq with ⟨rest, hbefore, htail⟩ | ⟨rest, hbefore, htail⟩
  · cases rest with
    | nil => simpa using hbefore.symm
    | cons y rest =>
      obtain ⟨rfl, -⟩ := List.cons.inj htail
      exact absurd (hbefore ▸ h') (hx rest)
  · cases rest with
    | nil => simpa using hbefore
    | cons y rest =>
      obtain ⟨rfl, -⟩ := List.cons.inj htail
      exact absurd (hbefore ▸ h) (hx' rest)

theorem exists_halt {p : Progress} {tasks : List Task} {stop : Stop}
    (h : performAll p tasks = .error stop) : ∃ halt : Halt p tasks, halt.stop = stop := by
  induction tasks generalizing p with
  | nil => simp at h
  | cons t ts ih =>
    cases ht : t.perform p.1 with
    | error stop' =>
      rw [performAll_cons_of_error ht] at h
      exact ⟨.first ht ts, Except.error.inj h⟩
    | ok p' =>
      rw [performAll_cons_of_ok ht] at h
      obtain ⟨halt, hstop⟩ := ih h
      exact ⟨halt.later ht, hstop⟩

namespace Interruption

variable {p : Progress} {units : List ParsedUnit}

/-- The unit that breaks off is not among units that run to their end. -/
theorem not_performed (i : Interruption p units) (rest : List ParsedUnit) (q : Progress) :
    performAll p ((i.before ++ i.unit :: rest).flatMap tasksOf) ≠ .ok q := by
  let j : Interruption p (i.before ++ i.unit :: rest) :=
    ⟨i.before, i.unit, rest, i.reached, rfl, i.performed, i.halt⟩
  rw [j.performAll_eq_error]
  simp

theorem before_unique (i j : Interruption p units) : i.before = j.before :=
  before_eq_of_breaks (P := fun us => ∃ q, performAll p (us.flatMap tasksOf) = .ok q)
    (i.units_eq.symm.trans j.units_eq) ⟨_, i.performed⟩ ⟨_, j.performed⟩
    (fun rest ⟨q, hq⟩ => i.not_performed rest q hq) fun rest ⟨q, hq⟩ => j.not_performed rest q hq

/-- Units break off in only one way. -/
theorem reached_unique (i j : Interruption p units) : i.reached = j.reached := by
  have hperformed := j.performed
  rw [← i.before_unique j] at hperformed
  exact Except.ok.inj (i.performed.symm.trans hperformed)

end Interruption

/-- A unit runs to its end, and its last statement is an expression with a value. -/
def Yields (p : Progress) (u : ParsedUnit) (s : State) (v : Value) : Prop :=
  ∃ init e span value, u.2.statements = init ++ [.expression e span] ∧
    performAll p (.start u :: init.map (.statement u)) = .ok (s, value) ∧
    eval s.environment u.1.name e = .ok v

/-- The value of a unit that has run to its end is that of its last task. -/
theorem yields_iff {p : Progress} {u : ParsedUnit} {s : State} {v : Value} :
    Yields p u s v ↔ performAll p (tasksOf u) = .ok (s, some v) := by
  constructor
  · rintro ⟨init, e, span, value, hstatements, hinit, hv⟩
    have htasks : tasksOf u =
        (.start u :: init.map (.statement u)) ++ [.statement u (.expression e span)] := by
      simp [tasksOf, hstatements]
    rw [htasks, performAll_append_of_ok hinit]
    exact performAll_cons_of_ok (perform_expression_eq_ok.2 ⟨v, hv, rfl⟩) []
  · intro h
    rcases List.eq_nil_or_concat u.2.statements with hnil | ⟨init, st, hstatements⟩
    · -- The only task is the start, which has no value.
      rw [tasksOf, hnil] at h
      obtain ⟨p', hstart, hrest⟩ := performAll_cons_eq_ok.1 h
      obtain ⟨-, rfl⟩ := perform_start_eq_ok hstart
      simp at hrest
    · have htasks : tasksOf u = (.start u :: init.map (.statement u)) ++ [.statement u st] := by
        simp [tasksOf, hstatements]
      rw [htasks] at h
      obtain ⟨q, hinit, hlast⟩ := performAll_append_eq_ok.1 h
      obtain ⟨q', hst, hq'⟩ := performAll_cons_eq_ok.1 hlast
      obtain rfl := Except.ok.inj hq'
      cases st with
      | val name e span =>
        obtain ⟨_, _, -, -, -, -, -, -, hnone⟩ := perform_val_eq_ok hst
        simp at hnone
      | print e span =>
        obtain ⟨_, _, -, -, heq⟩ := perform_print_eq_ok hst
        simp at heq
      | expression e span =>
        obtain ⟨w, hw, heq⟩ := perform_expression_eq_ok.1 hst
        obtain ⟨rfl, hvw⟩ := Prod.mk.inj heq
        obtain rfl := Option.some.inj hvw
        exact ⟨init, e, span, q.2, by simpa using hstatements, hinit, hw⟩

section

variable [CharacterNames]

/-- All units run to their end, and the last statement of the root script is an expression with a
value. -/
def RootYields (r : Request) (v : Value) : Prop :=
  ∃ others root q s, AreScripts r.units (others ++ [root]) ∧ root.1 = r.root ∧
    performAll (startState r (others ++ [root]), none) (others.flatMap tasksOf) = .ok q ∧
    Yields q root s v

/-- The last unit that runs to its end before another one breaks off has a value. -/
def LeavesBehind (r : Request) (v : Value) : Prop :=
  ∃ before u next after q s stop, AreScripts r.units (before ++ u :: next :: after) ∧
    performAll (startState r (before ++ u :: next :: after), none) (before.flatMap tasksOf) =
      .ok q ∧
    Yields q u s v ∧ performAll (s, some v) (tasksOf next) = .error stop

section Cases

variable {r : Request} {scripts : List ParsedUnit} {v : Value}

/-- The script of the root stands last. -/
theorem AreScripts.eq_append_root (h : AreScripts r.units scripts) :
    ∃ others root, scripts = others ++ [root] ∧ root.1 = r.root := by
  have hunits : scripts.map (·.1) = r.imports ++ [r.root] := h.map_unit
  obtain ⟨others, last, rfl, -, hlast⟩ := List.map_eq_append_iff.1 hunits
  obtain ⟨root, rest, rfl, hroot, hrest⟩ := List.map_eq_cons_iff.1 hlast
  obtain rfl := List.map_eq_nil_iff.1 hrest
  exact ⟨others, root, rfl, hroot⟩

/-- If all units run to their end, the last value is that of the root script. -/
theorem rootYields_iff_of_ok (hscripts : AreScripts r.units scripts) {q : Progress}
    (h : performAll (startState r scripts, none) (scripts.flatMap tasksOf) = .ok q) :
    RootYields r v ↔ q.2 = some v := by
  constructor
  · rintro ⟨others, root, p, s, hothers, -, hp, hyields⟩
    obtain rfl := hscripts.unique hothers
    rw [List.flatMap_append, performAll_append_of_ok hp, List.flatMap_singleton,
      yields_iff.1 hyields] at h
    obtain rfl := Except.ok.inj h
    rfl
  · intro hq
    obtain ⟨others, root, rfl, hroot⟩ := hscripts.eq_append_root
    rw [List.flatMap_append, List.flatMap_singleton] at h
    obtain ⟨p, hp, hlast⟩ := performAll_append_eq_ok.1 h
    refine ⟨others, root, p, q.1, hscripts, hroot, hp, yields_iff.2 ?_⟩
    rw [hlast, ← hq]

theorem not_leavesBehind_of_ok (hscripts : AreScripts r.units scripts) {q : Progress}
    (h : performAll (startState r scripts, none) (scripts.flatMap tasksOf) = .ok q) :
    ¬ LeavesBehind r v := by
  rintro ⟨before, u, next, after, p, s, stop, hall, hp, hyields, hstop⟩
  obtain rfl := hscripts.unique hall
  rw [List.flatMap_append, performAll_append_of_ok hp, List.flatMap_cons,
    performAll_append_of_ok (yields_iff.1 hyields), List.flatMap_cons,
    performAll_append_of_error hstop] at h
  simp at h

theorem not_rootYields_of_interruption (hscripts : AreScripts r.units scripts)
    (i : Interruption (startState r scripts, none) scripts) : ¬ RootYields r v := by
  rintro ⟨others, root, p, s, hothers, -, hp, hyields⟩
  obtain rfl := hscripts.unique hothers
  have herror := i.performAll_eq_error
  rw [List.flatMap_append, performAll_append_of_ok hp, List.flatMap_singleton,
    yields_iff.1 hyields] at herror
  simp at herror

/-- If a unit breaks off, the last value is that of the unit directly before. -/
theorem leavesBehind_iff_of_interruption (hscripts : AreScripts r.units scripts)
    (i : Interruption (startState r scripts, none) scripts) :
    LeavesBehind r v ↔ i.reached.2 = some v := by
  constructor
  · rintro ⟨before, u, next, after, p, s, stop, hall, hp, hyields, hstop⟩
    obtain rfl := hscripts.unique hall
    obtain ⟨halt, -⟩ := exists_halt hstop
    have hbefore : performAll (startState r (before ++ u :: next :: after), none)
        ((before ++ [u]).flatMap tasksOf) = .ok (s, some v) := by
      rw [List.flatMap_append, performAll_append_of_ok hp, List.flatMap_singleton]
      exact yields_iff.1 hyields
    have hunique := i.reached_unique ⟨before ++ [u], next, after, _, by simp, hbefore, halt⟩
    rw [hunique]
  · intro hv
    obtain ⟨before, unit, after, reached, heq, hperformed, halt⟩ := i
    rcases List.eq_nil_or_concat before with rfl | ⟨before, u, rfl⟩
    · obtain rfl := Except.ok.inj hperformed
      simp at hv
    · obtain rfl : scripts = before ++ u :: unit :: after := by simpa using heq
      rw [List.concat_eq_append, List.flatMap_append, List.flatMap_singleton] at hperformed
      obtain ⟨p, hp, hu⟩ := performAll_append_eq_ok.1 hperformed
      have hreached : reached = (reached.1, some v) := by rw [← hv]
      refine ⟨before, u, unit, after, p, reached.1, halt.stop, hscripts, hp, ?_, ?_⟩
      · rw [yields_iff, hu, ← hreached]
      · rw [← hreached]
        exact halt.performAll_eq_error

theorem RootYields.performAll_eq_ok (h : RootYields r v) : ∃ scripts q,
    AreScripts r.units scripts ∧
      performAll (startState r scripts, none) (scripts.flatMap tasksOf) = .ok q := by
  obtain ⟨others, root, p, s, hscripts, -, hp, hyields⟩ := h
  refine ⟨others ++ [root], (s, some v), hscripts, ?_⟩
  rw [List.flatMap_append, performAll_append_of_ok hp, List.flatMap_singleton]
  exact yields_iff.1 hyields

/-- Nothing is left behind if the root script has a value. -/
theorem RootYields.not_leavesBehind (h : RootYields r v) (w : Value) : ¬ LeavesBehind r w := by
  obtain ⟨scripts, q, hscripts, hq⟩ := h.performAll_eq_ok
  exact not_leavesBehind_of_ok hscripts hq

end Cases

/-- The value of an evaluation is that of the root script or one that was left behind. -/
theorem exists_value_iff {r : Request} (hnames : (r.units.map (·.name)).Nodup) :
    ∃ e, (evaluate r).outcome = .ok e ∧
      ∀ v, e.value = some v ↔ RootYields r v ∨ LeavesBehind r v := by
  rcases evaluate_cases hnames with ⟨hnone, heval⟩ | ⟨scripts, hscripts, hrun⟩
  · rw [heval]
    refine ⟨_, rfl, fun v => ⟨fun hv => by simp at hv, ?_⟩⟩
    rintro (⟨_, _, _, _, hscripts, -⟩ | ⟨_, _, _, _, _, _, _, hscripts, -⟩)
    · exact absurd hscripts (hnone _)
    · exact absurd hscripts (hnone _)
  · rcases hrun with ⟨q, hq, heval⟩ | ⟨i, fault, span, hstop, heval⟩
    · rw [heval]
      refine ⟨_, rfl, fun v => ?_⟩
      rw [rootYields_iff_of_ok hscripts hq, or_iff_left (not_leavesBehind_of_ok hscripts hq)]
    · rw [heval]
      refine ⟨_, rfl, fun v => ?_⟩
      rw [leavesBehind_iff_of_interruption hscripts i,
        or_iff_right (not_rootYields_of_interruption hscripts i)]

/-- An evaluation has the value of the root script, and none if the root script has none, exactly if
no value is left behind. -/
theorem value_of_root_iff {r : Request} (hnames : (r.units.map (·.name)).Nodup) :
    ∃ e, (evaluate r).outcome = .ok e ∧
      (∀ v, e.value = some v ↔ RootYields r v ∨ LeavesBehind r v) ∧
      ((∀ v, e.value = some v ↔ RootYields r v) ↔ ∀ v, ¬ LeavesBehind r v) := by
  obtain ⟨e, he, hvalue⟩ := exists_value_iff hnames
  refine ⟨e, he, hvalue, fun hroot v hleft => ?_, fun hnone v => ?_⟩
  · have hyields := (hroot v).1 ((hvalue v).2 (.inr hleft))
    exact hyields.not_leavesBehind v hleft
  · rw [hvalue v, or_iff_left (hnone v)]

/-- A root script that reads a binding of its import. -/
def reading : Request where
  root := ⟨.ofString "/w/scripts/main.custom.kts", "Main", "A.x\n"⟩
  imports := [⟨.ofString "/w/scripts/a.custom.kts", "A", "val x = 5\n"⟩]
  dependencies := .ofList [("A", []), ("Main", ["A"])]

end

attribute [local instance] CharacterNames.none

theorem value_of_reading : (reading.units.map (·.name)).Nodup ∧
    ∃ e, (evaluate reading).outcome = .ok e ∧
      (∀ v, e.value = some v ↔ RootYields reading v ∨ LeavesBehind reading v) ∧
      ((∀ v, e.value = some v ↔ RootYields reading v) ↔ ∀ v, ¬ LeavesBehind reading v) ∧
      e.value.bind Value.text? = some "5" := by
  have hnames : (reading.units.map (·.name)).Nodup := by decide
  have htext :
      ((evaluate reading).outcome.toOption.bind (·.value)).bind Value.text? = some "5" := by
    decide +kernel
  obtain ⟨e, he, hvalue, hroot⟩ := value_of_root_iff hnames
  exact ⟨hnames, e, he, hvalue, hroot, by simpa [he, Except.toOption] using htext⟩

/-- A root script that breaks off after an import with a value. -/
def leftover : Request where
  root := ⟨.ofString "/w/scripts/main.custom.kts", "Main", "x\n"⟩
  imports := [⟨.ofString "/w/scripts/a.custom.kts", "A", "5\n"⟩]
  dependencies := .ofList [("A", []), ("Main", ["A"])]

/-- The root script has no value here, but the evaluation has one. -/
theorem value_of_leftover : (leftover.units.map (·.name)).Nodup ∧
    ∃ e, (evaluate leftover).outcome = .ok e ∧ e.value.bind Value.text? = some "5" ∧
      ¬ ∀ v, e.value = some v ↔ RootYields leftover v := by
  have hnames : (leftover.units.map (·.name)).Nodup := by decide
  have htext : ((evaluate leftover).outcome.toOption.bind (·.value)).bind Value.text? =
      some "5" := by decide +kernel
  -- The root script can have a value only if the whole run comes to its end.
  let scripts := (readUnits leftover.units).filterMap parsed?
  have hstops : (performAll (startState leftover scripts, none)
      (scripts.flatMap tasksOf)).toOption.isNone := by decide +kernel
  obtain ⟨e, he, -⟩ := exists_value_iff hnames
  have hfive : e.value.bind Value.text? = some "5" := by simpa [he, Except.toOption] using htext
  refine ⟨hnames, e, he, hfive, fun hroot => ?_⟩
  obtain ⟨v, hv, -⟩ := Option.bind_eq_some_iff.1 hfive
  obtain ⟨scripts', q, hscripts, hq⟩ := ((hroot v).1 hv).performAll_eq_ok
  obtain rfl : scripts = scripts' := hscripts.parsed_eq
  simp [hq, Except.toOption] at hstops

end ScriptRunner.Interpreter
