import ScriptRunner.Proofs.Interpreter.Effects

/-!
# Evaluations of requests

A request whose units have distinct names is evaluated in one of three ways: some unit is no script
and nothing runs, all units run to their end, or they break off at a statement of one of them.

## Main definitions

* `AreScripts` - units with the scripts that their texts denote.
* `startState`, `State.evaluating` - the state before the first task, and what a state comes to.
* `ArrivesAt` - the evaluation of a request gets to a statement of a unit.

## Main statements

* `evaluate_cases` - the three ways of an evaluation.
-/

namespace ScriptRunner.Interpreter

open Script

/-- There is nothing to report about distinct names. -/
theorem nameReports_eq_nil (units : List ScriptUnit) {seen : Table String Path}
    (hnames : (units.map (·.name)).Nodup) (hnew : ∀ u ∈ units, u.name ∉ seen.keys) :
    nameReports seen units = [] := by
  induction units generalizing seen with
  | nil => rfl
  | cons u units ih =>
    rw [List.map_cons, List.nodup_cons] at hnames
    have hu : u.name ∉ seen.keys := hnew u List.mem_cons_self
    unfold nameReports
    rw [(Table.find?_eq_none_iff seen u.name).2 hu]
    refine ih hnames.2 fun v hv => ?_
    rw [Table.keys_insert_of_not_mem _ hu, List.mem_append, List.mem_singleton]
    rintro (hmem | heq)
    · exact hnew v (List.mem_cons_of_mem u hv) hmem
    · exact hnames.1 (List.mem_map.2 ⟨v, hv, heq⟩)

/-- Units with distinct names keep their own scripts. -/
theorem shareByName_eq_self {scripts : List ParsedUnit}
    (hnames : (scripts.map (·.1.name)).Nodup) : shareByName scripts = scripts := by
  have hkeys : ((scripts.map fun u => (u.1.name, u.2)).map Prod.fst).Nodup := by
    simpa [Function.comp_def] using hnames
  refine (List.map_congr_left fun u hu => ?_).trans (List.map_id scripts)
  have hentry :
      (u.1.name, u.2) ∈ (Table.ofList (scripts.map fun u => (u.1.name, u.2))).entries := by
    rw [Table.entries_ofList hkeys]
    exact List.mem_map.2 ⟨u, hu, rfl⟩
  rw [(Table.find?_eq_some_iff _ _ _).2 hentry]
  rfl

/-- The state before the first task. -/
def startState (r : Request) (scripts : List ParsedUnit) : State where
  environment := .start r.dependencies
  diagnostics := scripts.flatMap fun u => annotationWarnings u.2

/-- What the last state of so many units comes to, with a value. -/
def State.evaluating (s : State) (total : Nat) (value : Option Value) : Evaluating :=
  ⟨s.events ++ [.finished s.environment.namespaces.size total],
    .ok { diagnostics := s.diagnostics, namespaces := s.environment.namespaces, output := s.output,
          value }⟩

theorem runAll_of_ok {r : Request} {scripts : List ParsedUnit} {s : State} {value : Option Value}
    (h : runUnits (startState r scripts) none scripts = (s, .ok value)) :
    runAll r.dependencies scripts = s.evaluating scripts.length value := by
  unfold startState at h
  simp only [runAll, h]
  rfl

theorem runAll_of_error {r : Request} {scripts : List ParsedUnit} {s : State} {fault : UnitFault}
    (h : runUnits (startState r scripts) none scripts = (s, .error fault)) :
    runAll r.dependencies scripts = ⟨s.events, .error (.other fault.kind fault.message)⟩ := by
  unfold startState at h
  simp only [runAll, h]

section

variable {r : Request} {scripts : List ParsedUnit}
  {i : Interruption (startState r scripts, none) scripts}

/-- A fault that breaks units off is reported. -/
theorem runAll_of_fault (h : runUnits (startState r scripts) none scripts = i.result)
    {fault : Fault} {span : Span} (hstop : i.halt.stop = .fault fault span) :
    runAll r.dependencies scripts =
      (i.halt.reached.1.report (Interruption.report i.unit fault span)).evaluating
        scripts.length i.reached.2 := by
  have hresult : i.result =
      (i.halt.reached.1.report (Interruption.report i.unit fault span), .ok i.reached.2) := by
    simp only [Interruption.result, hstop]
  exact runAll_of_ok (h.trans hresult)

/-- Units that break off at a wrong use of the environment have no result. -/
theorem runAll_of_misuse (h : runUnits (startState r scripts) none scripts = i.result)
    {fault : UnitFault} (hstop : i.halt.stop = .misuse fault) :
    runAll r.dependencies scripts =
      ⟨i.halt.reached.1.events, .error (.other fault.kind fault.message)⟩ := by
  have hresult : i.result = (i.halt.reached.1, .error fault) := by
    simp only [Interruption.result, hstop]
  exact runAll_of_error (h.trans hresult)

end

variable [CharacterNames]

/-- The texts of units are scripts. -/
def AreScripts (units : List ScriptUnit) (scripts : List ParsedUnit) : Prop :=
  readUnits units = scripts.map fun u => (u.1, .ok u.2)

theorem AreScripts.unique {units : List ScriptUnit} {scripts scripts' : List ParsedUnit}
    (h : AreScripts units scripts) (h' : AreScripts units scripts') : scripts = scripts' := by
  refine (List.map_inj_right fun u v huv => ?_).1 (h.symm.trans h')
  obtain ⟨hunit, hprogram⟩ := Prod.mk.inj huv
  exact Prod.ext hunit (Except.ok.inj hprogram)

theorem AreScripts.map_unit {units : List ScriptUnit} {scripts : List ParsedUnit}
    (h : AreScripts units scripts) : scripts.map (·.1) = units := by
  have hunits := congrArg (List.map Prod.fst) h
  simpa [readUnits, Function.comp_def] using hunits.symm

theorem AreScripts.map_name {units : List ScriptUnit} {scripts : List ParsedUnit}
    (h : AreScripts units scripts) : scripts.map (·.1.name) = units.map (·.name) := by
  rw [← h.map_unit, List.map_map]
  rfl

/-- The paths of units up to one of them, and of those after it. -/
theorem AreScripts.map_path_eq_append {units : List ScriptUnit} {before after : List ParsedUnit}
    {u : ParsedUnit} (h : AreScripts units (before ++ u :: after)) :
    units.map (·.path) = (before ++ [u]).map (·.1.path) ++ after.map (·.1.path) := by
  rw [← h.map_unit, List.map_map, ← List.map_append, ← List.append_cons]
  rfl

theorem AreScripts.parse_eq {units : List ScriptUnit} {scripts : List ParsedUnit}
    (h : AreScripts units scripts) {u : ParsedUnit} (hu : u ∈ scripts) :
    parse u.1.path.toString u.1.text = .ok u.2 := by
  have hmem : (u.1, Except.ok u.2) ∈ readUnits units := by
    rw [h]
    exact List.mem_map.2 ⟨u, hu, rfl⟩
  obtain ⟨v, -, heq⟩ := List.mem_map.1 hmem
  obtain ⟨rfl, hparse⟩ := Prod.mk.inj heq
  exact hparse

/-- The texts of all units are scripts, or there is a report about one that is not. -/
theorem areScripts_or_report (units : List ScriptUnit) :
    (∃ scripts, AreScripts units scripts) ∨
      ∃ d ds, (readUnits units).filterMap parseReport? = d :: ds := by
  induction units with
  | nil => exact .inl ⟨[], rfl⟩
  | cons u units ih =>
    cases hu : parse u.path.toString u.text with
    | error e =>
      exact .inr ⟨_, _, by rw [readUnits, List.map_cons, hu]; rfl⟩
    | ok program =>
      rcases ih with ⟨scripts, hscripts⟩ | ⟨d, ds, hreports⟩
      · refine .inl ⟨(u, program) :: scripts, ?_⟩
        rw [AreScripts, readUnits, List.map_cons, hu, List.map_cons, ← hscripts]
        rfl
      · refine .inr ⟨d, ds, ?_⟩
        rw [readUnits, List.map_cons, hu, ← hreports]
        rfl

theorem AreScripts.reports_eq_nil {units : List ScriptUnit} {scripts : List ParsedUnit}
    (h : AreScripts units scripts) : (readUnits units).filterMap parseReport? = [] := by
  rw [h, List.filterMap_map]
  exact List.filterMap_eq_nil_iff.2 fun _ _ => rfl

theorem AreScripts.parsed_eq {units : List ScriptUnit} {scripts : List ParsedUnit}
    (h : AreScripts units scripts) : (readUnits units).filterMap parsed? = scripts := by
  rw [h, List.filterMap_map]
  exact List.filterMap_some

/-- The evaluation of a request gets to a statement of a unit, with the units before it run to their
end and the statements before it executed. -/
structure ArrivesAt (r : Request) (before : List ParsedUnit) (u : ParsedUnit)
    (after : List ParsedUnit) (st : Statement Value) (q : Progress) : Prop where
  scripts : AreScripts r.units (before ++ u :: after)
  performed : ∃ init rest, u.2.statements = init ++ st :: rest ∧
    performAll (startState r (before ++ u :: after), none)
      (before.flatMap tasksOf ++ .start u :: init.map (.statement u)) = .ok q

namespace ArrivesAt

variable {r : Request} {before after : List ParsedUnit} {u : ParsedUnit} {st : Statement Value}
  {q : Progress}

theorem keys_namespaces (h : ArrivesAt r before u after st q) :
    q.1.environment.namespaces.keys = before.map (·.1.name) ++ [u.1.name] := by
  obtain ⟨init, rest, -, hq⟩ := h.performed
  have hstart : (startState r (before ++ u :: after)).environment.namespaces.keys = [] := rfl
  rw [(extends_performAll hq).keys, hstart, List.flatMap_append, started_units, List.flatMap_cons,
    started_statements]
  rfl

theorem dependencies_eq (h : ArrivesAt r before u after st q) :
    q.1.environment.dependencies = r.dependencies := by
  obtain ⟨init, rest, -, hq⟩ := h.performed
  exact (extends_performAll hq).dependencies

/-- If the statement stops, the whole run breaks off there. -/
theorem exists_halt (h : ArrivesAt r before u after st q) {stop : Stop}
    (hstop : (Task.statement u st).perform q.1 = .error stop) :
    ∃ halt : Halt (startState r (before ++ u :: after), none)
        ((before ++ u :: after).flatMap tasksOf),
      halt.task = .statement u st ∧ halt.reached = q ∧ halt.stop = stop := by
  obtain ⟨init, rest, hstatements, hq⟩ := h.performed
  -- All tasks of the run, cut at the statement.
  have htasks : (before ++ u :: after).flatMap tasksOf =
      (before.flatMap tasksOf ++ .start u :: init.map (.statement u)) ++
        (.statement u st :: (rest.map (.statement u) ++ after.flatMap tasksOf)) := by
    simp [tasksOf, hstatements]
  exact ⟨⟨_, _, _, q, stop, htasks, hq, hstop⟩, rfl, rfl, rfl⟩

theorem performAll_eq_error (h : ArrivesAt r before u after st q) {stop : Stop}
    (hstop : (Task.statement u st).perform q.1 = .error stop) :
    performAll (startState r (before ++ u :: after), none)
      ((before ++ u :: after).flatMap tasksOf) = .error stop := by
  obtain ⟨halt, -, -, rfl⟩ := h.exists_halt hstop
  exact halt.performAll_eq_error

end ArrivesAt

/-- Units with distinct names break off at a statement of one of them. -/
theorem Interruption.exists_arrivesAt {r : Request} {scripts : List ParsedUnit}
    (i : Interruption (startState r scripts, none) scripts) (hscripts : AreScripts r.units scripts)
    (hnames : (scripts.map (·.1.name)).Nodup) :
    ∃ st fault span, ArrivesAt r i.before i.unit i.after st i.halt.reached ∧
      i.halt.stop = .fault fault span ∧
      (FailsAt i.halt.reached.1.environment i.unit.1.name st.body (.fault fault span) ∨
        fault = .operator .tooLong) := by
  obtain ⟨init, st, rest, fault, span, hstatements, hperformed, hstop, hfault⟩ :=
    i.exists_fault rfl hnames
  have hreached : performAll (startState r scripts, none)
      (i.before.flatMap tasksOf ++ .start i.unit :: init.map (.statement i.unit)) =
      .ok i.halt.reached := by
    rw [performAll_append_of_ok i.performed, hperformed]
  have hunits := i.units_eq
  refine ⟨st, fault, span, ⟨hunits ▸ hscripts, init, rest, hstatements, ?_⟩, hstop, hfault⟩
  rwa [← hunits]

/-- The evaluation of a request with distinct names: nothing runs, everything runs, or a unit breaks
off with a fault. -/
theorem evaluate_cases {r : Request} (hnames : (r.units.map (·.name)).Nodup) :
    ((∀ scripts, ¬ AreScripts r.units scripts) ∧
      evaluate r = ⟨[], .ok { diagnostics := (readUnits r.units).filterMap parseReport? }⟩) ∨
    ∃ scripts, AreScripts r.units scripts ∧
      ((∃ q, performAll (startState r scripts, none) (scripts.flatMap tasksOf) = .ok q ∧
        evaluate r = q.1.evaluating scripts.length q.2) ∨
      ∃ (i : Interruption (startState r scripts, none) scripts) (fault : Fault) (span : Span),
        i.halt.stop = .fault fault span ∧
        evaluate r = (i.halt.reached.1.report (Interruption.report i.unit fault span)).evaluating
          scripts.length i.reached.2) := by
  have hreports : nameReports .empty r.units = [] :=
    nameReports_eq_nil r.units hnames fun _ _ => List.not_mem_nil
  rcases areScripts_or_report r.units with ⟨scripts, hscripts⟩ | ⟨d, ds, hparse⟩
  · right
    have hscriptNames : (scripts.map (·.1.name)).Nodup := by rwa [hscripts.map_name]
    have hrun : evaluate r = runAll r.dependencies scripts := by
      simp only [evaluate, hreports, hscripts.reports_eq_nil, hscripts.parsed_eq,
        shareByName_eq_self hscriptNames]
    refine ⟨scripts, hscripts, ?_⟩
    rcases runUnits_cases scripts (startState r scripts, none) with ⟨q, hq, hunits⟩ | ⟨i, hunits⟩
    · refine .inl ⟨q, hq, ?_⟩
      rw [hrun, runAll_of_ok hunits]
    · obtain ⟨_, fault, span, -, hstop, -⟩ := i.exists_arrivesAt hscripts hscriptNames
      exact .inr ⟨i, fault, span, hstop, hrun.trans (runAll_of_fault hunits hstop)⟩
  · refine .inl ⟨fun scripts hscripts => ?_, ?_⟩
    · rw [hscripts.reports_eq_nil] at hparse
      exact absurd hparse (by simp)
    · simp only [evaluate, hreports, hparse]

end ScriptRunner.Interpreter
