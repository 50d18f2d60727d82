import ScriptRunner.Proofs.Interpreter.Reordering

/-!
# Influence between units

A unit is influenced only by the units that it refers to. Where two requests differ in the texts of
other units alone, both runs agree on the namespaces that the unit can read whenever it starts, so
it does the same in both.

## Main definitions

* `ChangedOutside` - two requests differ in the texts of units outside a set.
* `Readable` - the names whose namespaces the units of a set can read.
* `Behaviour`, `BehavesAs` - what a unit does in an evaluation.

## Main statements

* `ChangedOutside.agreesOn_unit`, `ChangedOutside.agreesOn_units` - runs agree on what is readable,
  whether or not a unit is in the set.
* `behavesAs_of_changedOutside` - a unit of the set does the same in both evaluations.
-/

namespace ScriptRunner

namespace Interpreter

open Script

section

variable [CharacterNames]

/-- Two requests differ only in the texts of units outside a set. Their units have the same names
and paths in the same order, with distinct names, and the same direct imports. The set holds with a
unit those units that it imports directly and that own qualified names in its script. -/
structure ChangedOutside (inside : String → Prop) (r r' : Request) : Prop where
  units : List.Forall₂ (fun v v' => v.name = v'.name ∧ v.path = v'.path ∧
    (inside v.name → v.text = v'.text)) r.units r'.units
  dependencies : ∀ name, r.dependencies.find? name = r'.dependencies.find? name
  names : (r.units.map (·.name)).Nodup
  imports : ∀ v ∈ r.units, inside v.name → ∀ d ∈ r.importsOf v.name,
    d ∈ r.units.map (·.name) → inside d
  owners : ∀ v ∈ r.units, inside v.name → ∀ p, parse v.path.toString v.text = .ok p →
    ∀ d ∈ p.owners, d ∈ r.units.map (·.name) → inside d

/-- The names whose namespaces the units of a set can read: those of the set, and those of no unit,
which never have a namespace. -/
def Readable (inside : String → Prop) (r : Request) (d : String) : Prop :=
  inside d ∨ d ∉ r.units.map (·.name)

/-- Two units at the same place of requests that differ outside a set. -/
structure Twins (inside : String → Prop) (u u' : ParsedUnit) : Prop where
  name : u.1.name = u'.1.name
  same : inside u.1.name → u = u'

section

variable {inside : String → Prop} {r r' : Request} {scripts scripts' : List ParsedUnit}

namespace ChangedOutside

theorem map_name_eq (h : ChangedOutside inside r r') :
    r.units.map (·.name) = r'.units.map (·.name) := by
  rw [← List.forall₂_eq_eq_eq, List.forall₂_map_left_iff, List.forall₂_map_right_iff]
  exact h.units.imp fun v v' hv => hv.1

theorem names' (h : ChangedOutside inside r r') : (r'.units.map (·.name)).Nodup :=
  h.map_name_eq ▸ h.names

/-- Units of the set have the same scripts in both requests. -/
theorem forall₂_twins (h : ChangedOutside inside r r') (hscripts : AreScripts r.units scripts)
    (hscripts' : AreScripts r'.units scripts') :
    List.Forall₂ (Twins inside) scripts scripts' := by
  have hunits := h.units
  rw [← hscripts.map_unit, ← hscripts'.map_unit, List.forall₂_map_left_iff,
    List.forall₂_map_right_iff] at hunits
  refine (forall₂_with_mem hunits).imp fun v v' hv => ?_
  obtain ⟨hmem, hmem', hname, hpath, htext⟩ := hv
  refine ⟨hname, fun hinside => ?_⟩
  have hunit : v.1 = v'.1 := by
    obtain ⟨⟨path, name, text⟩, p⟩ := v
    obtain ⟨⟨path', name', text'⟩, p'⟩ := v'
    simp_all
  have hparse := hscripts.parse_eq hmem
  rw [hunit, hscripts'.parse_eq hmem'] at hparse
  exact Prod.ext hunit (Except.ok.inj hparse.symm)

/-- A unit of the set refers to readable names only. -/
theorem refersTo (h : ChangedOutside inside r r') (hscripts : AreScripts r.units scripts)
    {v : ParsedUnit} (hv : v ∈ scripts) (hinside : inside v.1.name) :
    ∀ t ∈ tasksOf v, RefersTo r.dependencies (Readable inside r) t := by
  have hmem := (hscripts.mem_iff v).1 hv
  refine refersTo_of_mem_tasksOf (.inl hinside) (fun d hd => ?_) fun d hd => ?_
  · by_cases hunit : d ∈ r.units.map (·.name)
    · exact .inl (h.imports v.1 hmem.1 hinside d hd hunit)
    · exact .inr hunit
  · by_cases hunit : d ∈ r.units.map (·.name)
    · exact .inl (h.owners v.1 hmem.1 hinside v.2 hmem.2 d hd hunit)
    · exact .inr hunit

variable {p p' q q' : Progress}

/-- A unit keeps the two runs in agreement: in the set it does the same in both, and outside of it
only its own namespace changes, which is not readable. -/
theorem agreesOn_unit (h : ChangedOutside inside r r') (hscripts : AreScripts r.units scripts)
    {v v' : ParsedUnit} (hv : v ∈ scripts) (htwins : Twins inside v v')
    (hdependencies : p.1.environment.dependencies = r.dependencies)
    (hagrees : AgreesOn (Readable inside r) p.1.environment p'.1.environment)
    (hq : performAll p (tasksOf v) = .ok q) (hq' : performAll p' (tasksOf v') = .ok q') :
    AgreesOn (Readable inside r) q.1.environment q'.1.environment := by
  by_cases hinside : inside v.1.name
  · obtain rfl := htwins.same hinside
    have halike := alike_unit hagrees (hdependencies ▸ h.refersTo hscripts hv hinside)
    rw [hq, hq'] at halike
    cases halike with
    | ok _ _ agrees => exact agrees
  · have hne : ∀ d, Readable inside r d → v.1.name ≠ d := by
      rintro d (hd | hd) rfl
      · exact hinside hd
      · exact hd (List.mem_map_of_mem ((hscripts.mem_iff v).1 hv).1)
    refine ⟨fun d => ?_, fun d hd => ?_⟩
    · rw [(extends_performAll hq).dependencies, (extends_performAll hq').dependencies,
        hagrees.dependencies]
    · have hframe : q.1.environment.namespaces.find? d = p.1.environment.namespaces.find? d :=
        find?_performAll hq fun t ht => unit_of_mem_tasksOf ht ▸ hne d hd
      have hframe' : q'.1.environment.namespaces.find? d = p'.1.environment.namespaces.find? d :=
        find?_performAll hq' fun t ht =>
          unit_of_mem_tasksOf ht ▸ htwins.name ▸ hne d hd
      rw [hframe, hframe', hagrees.namespaces d hd]

theorem agreesOn_units (h : ChangedOutside inside r r') (hscripts : AreScripts r.units scripts)
    {before before' : List ParsedUnit} (htwins : List.Forall₂ (Twins inside) before before')
    (hbefore : ∀ v ∈ before, v ∈ scripts)
    (hdependencies : p.1.environment.dependencies = r.dependencies)
    (hagrees : AgreesOn (Readable inside r) p.1.environment p'.1.environment)
    (hq : performAll p (before.flatMap tasksOf) = .ok q)
    (hq' : performAll p' (before'.flatMap tasksOf) = .ok q') :
    AgreesOn (Readable inside r) q.1.environment q'.1.environment := by
  induction htwins generalizing p p' with
  | nil =>
    obtain rfl := Except.ok.inj hq
    obtain rfl := Except.ok.inj hq'
    exact hagrees
  | cons hv _ ih =>
    obtain ⟨hmem, hbefore⟩ := List.forall_mem_cons.1 hbefore
    rw [List.flatMap_cons] at hq hq'
    obtain ⟨s, hs, hq⟩ := performAll_append_eq_ok.1 hq
    obtain ⟨s', hs', hq'⟩ := performAll_append_eq_ok.1 hq'
    exact ih hbefore ((extends_performAll hs).dependencies.trans hdependencies)
      (h.agreesOn_unit hscripts hmem hv hdependencies hagrees hs hs') hq hq'

variable {before before' after after' : List ParsedUnit} {u u' : ParsedUnit}

/-- A unit stands at the same place of both orders, behind twins. -/
theorem twins_before (h : ChangedOutside inside r r') (hu : Starts r before u after p)
    (hu' : Starts r' before' u' after' p') (hname : u.1.name = u'.1.name) :
    List.Forall₂ (Twins inside) before before' ∧ Twins inside u u' := by
  have htwins := h.forall₂_twins hu.scripts hu'.scripts
  have hnames := h.names
  have hnames' := h.names'
  have heq := h.map_name_eq
  rw [← hu.scripts.map_name, ← hu'.scripts.map_name] at heq
  rw [← hu.scripts.map_name] at hnames
  rw [← hu'.scripts.map_name] at hnames'
  simp only [List.map_append, List.map_cons] at heq hnames hnames'
  -- Names are distinct, so the unit has as many others before it in both orders.
  have hcut := (List.append_cons_inj_of_notMem ?_ ?_).1 heq
  · have hlength : before.length = before'.length := by simpa using congrArg List.length hcut.1
    obtain ⟨hbefore, hrest⟩ := forall₂_append_inv htwins hlength
    exact ⟨hbefore, (List.forall₂_cons.1 hrest).1⟩
  · rw [← hname]
    exact fun hmem => (List.nodup_append.1 hnames).2.2 _ hmem _ List.mem_cons_self rfl
  · rw [← hname]
    exact (List.nodup_cons.1 (List.nodup_append.1 hnames).2.1).1

/-- Whenever a unit starts in both runs, they agree on what is readable. -/
theorem agreesOn_start (h : ChangedOutside inside r r') (hu : Starts r before u after p)
    (hu' : Starts r' before' u' after' p') (hname : u.1.name = u'.1.name) :
    AgreesOn (Readable inside r) p.1.environment p'.1.environment := by
  have hstart : AgreesOn (Readable inside r) (startState r (before ++ u :: after)).environment
      (startState r' (before' ++ u' :: after')).environment := ⟨h.dependencies, fun d _ => rfl⟩
  exact h.agreesOn_units hu.scripts (h.twins_before hu hu' hname).1
    (fun v hv => List.mem_append_left _ hv) rfl hstart hu.performed hu'.performed

end ChangedOutside

end

/-- What a unit does in an evaluation: the lines that it prints, the warnings about its new values,
its namespace at the end, and the report of the fault at which it stops, if it does. -/
structure Behaviour where
  lines : List ScriptText
  warnings : List Diagnostic
  own : Namespace
  report? : Option Diagnostic

/-- A unit has done so much between two moments. -/
structure Adds (u : ParsedUnit) (b : Behaviour) (p q : Progress) : Prop where
  output : q.1.output = p.1.output ++ b.lines
  diagnostics : q.1.diagnostics = p.1.diagnostics ++ b.warnings
  own : q.1.environment.namespaces.find? u.1.name = some b.own

/-- A unit that starts at a moment behaves in this way in an evaluation: it completes, and what it
has done stays, or it stops at a fault, which is the end of the evaluation. -/
inductive BehavesAs (e : Evaluation) (u : ParsedUnit) (p : Progress) (b : Behaviour) : Prop
  | completes (q : Progress) (performed : performAll p (tasksOf u) = .ok q) (adds : Adds u b p q)
      (report : b.report? = none) (output : q.1.output <+: e.output)
      (diagnostics : q.1.diagnostics <+: e.diagnostics)
      (own : e.namespaces.find? u.1.name = some b.own)
  | stops (halt : Halt p (tasksOf u)) (d : Diagnostic) (adds : Adds u b p halt.reached)
      (report : b.report? = some d)
      (fault : ∃ fault span, halt.stop = .fault fault span ∧ d = Interruption.report u fault span)
      (output : e.output = halt.reached.1.output)
      (diagnostics : e.diagnostics = halt.reached.1.diagnostics ++ [d])
      (own : e.namespaces.find? u.1.name = some b.own)

section

variable {r : Request} {before after : List ParsedUnit} {u : ParsedUnit} {p q : Progress}
  {e : Evaluation} {b : Behaviour}

/-- After a moment some more of the tasks are performed, until the evaluation ends with the state
that is reached, or with a report of a fault behind it. -/
theorem exists_last {scripts : List ParsedUnit} (hnames : (r.units.map (·.name)).Nodup)
    (hscripts : AreScripts r.units scripts) {xs ys : List Task}
    (htasks : scripts.flatMap tasksOf = xs ++ ys)
    (hq : performAll (startState r scripts, none) xs = .ok q) :
    ∃ (e : Evaluation) (more : List Task) (last : Progress) (report? : Option Diagnostic),
      (evaluate r).outcome = .ok e ∧ more <+: ys ∧ performAll q more = .ok last ∧
      e.output = last.1.output ∧ e.diagnostics = last.1.diagnostics ++ report?.toList ∧
      (∀ d ∈ report?, d.severity = .error) ∧
      e.namespaces = last.1.environment.namespaces := by
  obtain ⟨e, done, last, report?, he, hends, houtput, hdiagnostics, herror⟩ :=
    exists_endsAt_reported hnames hscripts
  obtain ⟨more, rfl⟩ := hends.last xs q ⟨ys, htasks.symm⟩ hq
  have hmore := hends.performed
  rw [performAll_append_of_ok hq] at hmore
  have hbegins := hends.begins
  rw [htasks] at hbegins
  exact ⟨e, more, last, report?, he, (List.prefix_append_right_inj xs).1 hbegins, hmore, houtput,
    hdiagnostics, herror, hends.namespaces⟩

/-- A unit that completes, with what it has done by then. -/
theorem Starts.exists_behavesAs_of_performAll (h : Starts r before u after p)
    (hnames : (r.units.map (·.name)).Nodup) (hq : performAll p (tasksOf u) = .ok q)
    (hadds : Adds u b p q) (hreport : b.report? = none) :
    ∃ e, (evaluate r).outcome = .ok e ∧ BehavesAs e u p b := by
  have htasks : (before ++ u :: after).flatMap tasksOf =
      (before.flatMap tasksOf ++ tasksOf u) ++ after.flatMap tasksOf := by simp
  obtain ⟨e, more, last, report?, he, hmore, hlast, houtput, hdiagnostics, -, hnamespaces⟩ :=
    exists_last hnames h.scripts htasks ((performAll_append_of_ok h.performed _).trans hq)
  obtain ⟨hbegins, hbegins'⟩ := begins_performAll hlast
  refine ⟨e, he, .completes q hq hadds hreport (houtput ▸ hbegins)
    (hbegins'.trans ⟨_, hdiagnostics.symm⟩) ?_⟩
  -- No later task is part of the unit.
  rw [hnamespaces, ← hadds.own]
  refine find?_performAll hlast fun t ht heq => ?_
  have hlater := unit_mem_of_mem_tasks (hmore.subset ht)
  rw [← h.scripts.map_name, List.map_append, List.map_cons] at hnames
  exact (List.nodup_cons.1 (List.nodup_append.1 hnames).2.1).1 (heq ▸ List.mem_map_of_mem hlater)

/-- A unit that breaks off does so at a fault, which ends the evaluation. -/
theorem Starts.exists_evaluate_of_halt (h : Starts r before u after p)
    (hnames : (r.units.map (·.name)).Nodup) (halt : Halt p (tasksOf u)) :
    ∃ fault span value, halt.stop = .fault fault span ∧ evaluate r = (halt.reached.1.report
      (Interruption.report u fault span)).evaluating (before ++ u :: after).length value := by
  let i : Interruption (startState r (before ++ u :: after), none) (before ++ u :: after) :=
    ⟨before, u, after, p, rfl, h.performed, halt⟩
  obtain ⟨whole, hunit, hreached, hstop⟩ := i.exists_halt
  obtain ⟨fault, span, value, hfault, heval⟩ := evaluate_of_halt hnames h.scripts whole
  exact ⟨fault, span, value, hstop.symm.trans hfault, by rw [heval, hunit, hreached]⟩

/-- A unit that stops at a fault, with what it has done by then. -/
theorem Starts.exists_behavesAs_of_halt (h : Starts r before u after p)
    (hnames : (r.units.map (·.name)).Nodup) (halt : Halt p (tasksOf u)) {fault : Fault}
    {span : Span} (hstop : halt.stop = .fault fault span) (hadds : Adds u b p halt.reached)
    (hreport : b.report? = some (Interruption.report u fault span)) :
    ∃ e, (evaluate r).outcome = .ok e ∧ BehavesAs e u p b := by
  obtain ⟨fault', span', value, hstop', heval⟩ := h.exists_evaluate_of_halt hnames halt
  obtain ⟨rfl, rfl⟩ := Stop.fault.inj (hstop.symm.trans hstop')
  exact ⟨_, by rw [heval]; rfl, .stops halt _ hadds hreport ⟨fault, span, hstop, rfl⟩ rfl rfl
    hadds.own⟩

end

end

section

variable {units : String → Prop} {u : ParsedUnit} {p p' q q' : Progress}

/-- What a unit has done if the outcomes of its tasks are the same. -/
theorem Alike.exists_adds (h : Alike units p.1 p'.1 (.ok q) (.ok q')) (hunit : units u.1.name)
    (hentered : u.1.name ∈ q.1.environment.namespaces.keys) (report? : Option Diagnostic) :
    ∃ b : Behaviour, b.report? = report? ∧ Adds u b p q ∧ Adds u b p' q' := by
  cases h with
  | ok lines warnings agrees _ output output' diagnostics diagnostics' =>
    obtain ⟨own, hown⟩ := Table.exists_find?_of_mem_keys hentered
    exact ⟨⟨lines, warnings, own, report?⟩, rfl, ⟨output, diagnostics, hown⟩, output', diagnostics',
      (agrees.namespaces _ hunit).symm.trans hown⟩

/-- A unit that breaks off behind its start does so in every state that agrees on the units that it
refers to, at the same task. -/
theorem Halt.exists_alike (hagrees : AgreesOn units p.1.environment p'.1.environment)
    (hu : ∀ t ∈ tasksOf u, RefersTo p.1.environment.dependencies units t)
    (halt : Halt p (tasksOf u)) {ts : List Task} (hbefore : halt.before = .start u :: ts) :
    ∃ halt' : Halt p' (tasksOf u), halt'.stop = halt.stop ∧
      Alike units p.1 p'.1 (.ok halt.reached) (.ok halt'.reached) := by
  have hmem : ∀ t ∈ halt.before, t ∈ tasksOf u := fun t ht => by
    rw [halt.tasks_eq]
    exact List.mem_append_left _ ht
  -- A start has no use for the value before it.
  have hvalue : ∀ s : Progress, performAll (s.1, none) halt.before = performAll s halt.before :=
    fun s => by rw [hbefore]; rfl
  have halike : Alike units p.1 p'.1 (performAll (p.1, none) halt.before)
      (performAll (p'.1, none) halt.before) :=
    alike_performAll hagrees none fun t ht => hu t (hmem t ht)
  rw [hvalue p, hvalue p', halt.performed] at halike
  generalize hreached : performAll p' halt.before = x at halike
  cases x with
  | error stop => cases halike
  | ok q' =>
    have hagrees' : AgreesOn units halt.reached.1.environment q'.1.environment := by
      cases halike with
      | ok _ _ agrees => exact agrees
    have hstopped := alike_perform hagrees' (t := halt.task)
      ((extends_performAll halt.performed).dependencies ▸ hu _ halt.task_mem)
    rw [halt.stopped] at hstopped
    generalize hstop : halt.task.perform q'.1 = y at hstopped
    cases hstopped with
    | stop =>
      exact ⟨⟨halt.before, halt.task, halt.after, q', halt.stop, halt.tasks_eq, hreached, hstop⟩,
        rfl, halike⟩

end

section

variable [CharacterNames]

/-- A unit is influenced only by the units that it refers to. If two requests differ in the texts of
units outside a set that holds with each unit those that it refers to, and a unit of the set starts
in both evaluations, then it does the same in both. -/
theorem behavesAs_of_changedOutside {inside : String → Prop} {r r' : Request}
    {before before' after after' : List ParsedUnit} {u u' : ParsedUnit} {p p' : Progress}
    (h : ChangedOutside inside r r') (hu : Starts r before u after p)
    (hu' : Starts r' before' u' after' p') (hname : u.1.name = u'.1.name)
    (hinside : inside u.1.name) :
    ∃ e e' b, (evaluate r).outcome = .ok e ∧ (evaluate r').outcome = .ok e' ∧
      BehavesAs e u p b ∧ BehavesAs e' u' p' b := by
  obtain rfl := (h.twins_before hu hu' hname).2.same hinside
  have hagrees := h.agreesOn_start hu hu' hname
  have hrefers : ∀ t ∈ tasksOf u, RefersTo p.1.environment.dependencies (Readable inside r) t := by
    rw [dependencies_of_performAll hu.performed]
    exact h.refersTo hu.scripts (List.mem_append_right _ List.mem_cons_self) hinside
  have hentered : ∀ {ts : List Task} {q : Progress}, performAll p (.start u :: ts) = .ok q →
      u.1.name ∈ q.1.environment.namespaces.keys := by
    intro ts q hq
    rw [(extends_performAll hq).keys]
    exact List.mem_append_right _ List.mem_cons_self
  cases hrun : performAll p (tasksOf u) with
  | ok q =>
    have halike := alike_unit hagrees hrefers
    rw [hrun] at halike
    generalize hrun' : performAll p' (tasksOf u) = x at halike
    cases x with
    | error stop => cases halike
    | ok q' =>
      obtain ⟨b, hreport, hadds, hadds'⟩ := halike.exists_adds (.inl hinside) (hentered hrun) none
      obtain ⟨e, he, hb⟩ := hu.exists_behavesAs_of_performAll h.names hrun hadds hreport
      obtain ⟨e', he', hb'⟩ := hu'.exists_behavesAs_of_performAll h.names' hrun' hadds' hreport
      exact ⟨e, e', b, he, he', hb, hb'⟩
  | error stop =>
    obtain ⟨halt, -⟩ := exists_halt hrun
    obtain ⟨init, st, rest, -, hbefore, -⟩ := halt.exists_statement (hu.new h.names)
    obtain ⟨halt', hstop, halike⟩ := halt.exists_alike hagrees hrefers hbefore
    obtain ⟨fault, span, -, hfault, -⟩ := hu.exists_evaluate_of_halt h.names halt
    obtain ⟨b, hreport, hadds, hadds'⟩ := halike.exists_adds (.inl hinside)
      (hentered (hbefore ▸ halt.performed)) (some (Interruption.report u fault span))
    obtain ⟨e, he, hb⟩ := hu.exists_behavesAs_of_halt h.names halt hfault hadds hreport
    obtain ⟨e', he', hb'⟩ :=
      hu'.exists_behavesAs_of_halt h.names' halt' (hstop.trans hfault) hadds' hreport
    exact ⟨e, e', b, he, he', hb, hb'⟩

/-- A root that imports one of two scripts before it, gives a name two values and breaks off. -/
def bystander (text : String) : Request where
  root := ⟨.ofString "/w/scripts/main.custom.kts", "Main",
    "println(x + A.x)\nval y = x\nval y = 2\n1 / 0\n"⟩
  imports := [⟨.ofString "/w/scripts/b.custom.kts", "B", text⟩,
    ⟨.ofString "/w/scripts/a.custom.kts", "A", "val x = 1\n"⟩]
  dependencies := .ofList [("B", []), ("A", []), ("Main", ["A"])]

end

attribute [local instance] CharacterNames.none

/-- The script that the root does not import binds, prints and warns in another way. -/
theorem behavesAs_of_bystander :
    let r := bystander "val x = 7\nprintln(x)\n"
    let r' := bystander "@file:Since(\"1\")\nval z = 8\nval z = 9\n"
    ChangedOutside (· ≠ "B") r r' ∧
    ∃ before u after p before' u' after' p' e e' b, Starts r before u after p ∧
      Starts r' before' u' after' p' ∧ u.1.name = "Main" ∧ u'.1.name = "Main" ∧
      (evaluate r).outcome = .ok e ∧ (evaluate r').outcome = .ok e' ∧
      BehavesAs e u p b ∧ BehavesAs e' u' p' b ∧
      (e.output, e.diagnostics.length) = ([("7" : ScriptText), "2"], 2) ∧
      (e'.output, e'.diagnostics.length) = ([("2" : ScriptText)], 4) := by
  intro r r'
  have hfirst : ∀ v ∈ r.units, v.name ≠ "B" → ∀ d ∈ r.importsOf v.name,
      d ∈ r.units.map (·.name) → d ≠ "B" := by decide +kernel
  have hrefers : r.RefersToImports := by decide +kernel
  have hchanged : ChangedOutside (· ≠ "B") r r' := {
    units := .cons ⟨rfl, rfl, fun h => absurd rfl h⟩
      (.cons ⟨rfl, rfl, fun _ => rfl⟩ (.cons ⟨rfl, rfl, fun _ => rfl⟩ .nil))
    dependencies := fun _ => rfl
    names := by decide
    imports := hfirst
    owners := fun v hv hinside p hp d hd hunit => by
      rcases hrefers v hv p hp d hd with rfl | himport
      · exact hinside
      · exact hfirst v hv hinside d himport hunit }
  have hrun : ((evaluate r).events.contains
      (.started "Main" (.ofString "/w/scripts/main.custom.kts")), (evaluate r).outcome.toOption.map
        fun e => (e.output, e.diagnostics.length)) =
          (true, some ([("7" : ScriptText), "2"], 2)) := by
    decide +kernel
  have hrun' : ((evaluate r').events.contains
      (.started "Main" (.ofString "/w/scripts/main.custom.kts")), (evaluate r').outcome.toOption.map
        fun e => (e.output, e.diagnostics.length)) = (true, some ([("2" : ScriptText)], 4)) := by
    decide +kernel
  obtain ⟨hstarted, hend⟩ := Prod.mk.inj hrun
  obtain ⟨hstarted', hend'⟩ := Prod.mk.inj hrun'
  obtain ⟨before, u, after, p, hu, hname, -⟩ :=
    (started_mem_events_iff hchanged.names _ _).1 (List.contains_iff_mem.1 hstarted)
  obtain ⟨before', u', after', p', hu', hname', -⟩ :=
    (started_mem_events_iff hchanged.names' _ _).1 (List.contains_iff_mem.1 hstarted')
  have hinside : u.1.name ≠ "B" := by
    rw [hname]
    decide
  obtain ⟨e, e', b, he, he', hb, hb'⟩ :=
    behavesAs_of_changedOutside hchanged hu hu' (hname.trans hname'.symm) hinside
  refine ⟨hchanged, before, u, after, p, before', u', after', p', e, e', b, hu, hu', hname, hname',
    he, he', hb, hb', ?_, ?_⟩
  · simpa [he, Except.toOption] using hend
  · simpa [he', Except.toOption] using hend'

end Interpreter

end ScriptRunner
