import ScriptRunner.Proofs.Environment.History
import ScriptRunner.Proofs.Interpreter.Annotations
import ScriptRunner.Proofs.Interpreter.Influence

/-!
# Names that are declared again

While a unit runs, its namespace, its warnings about new values and the list of the declarations
that have been executed grow side by side. Each declaration binds its name to the value that it
has computed, and there is a warning if an earlier one of the same unit has declared the name. Other
units have no part in this, whatever they declare.

## Main definitions

* `Declaration`, `declarations` - the declarations that tasks execute, with their values.
* `redeclared` - the declarations of names that have been declared before.
* `Diagnostic.IsRebinding` - a warning about a new value of a name of a unit.
* `Reflects`, `Records` - the namespace of a unit and its warnings are those of some declarations,
  while the unit runs and at the end of the evaluation.

## Main statements

* `Reflects.perform`, `Reflects.performAll` - one more statement, and any number of them.
* `Starts.exists_records` - a unit of an evaluation, whether it runs to its end or breaks off.
-/

namespace ScriptRunner

/-- A warning about a new value of some name of a unit. -/
def Diagnostic.IsRebinding (unit : String) (d : Diagnostic) : Prop :=
  ∃ name location, Script.WrittenAsName name ∧
    d = Interpreter.rebindingWarning unit name location

namespace Interpreter

open Script

/-- A declaration that has been executed, with the value that it has computed. -/
structure Declaration where
  name : String
  value : Value
  span : Span

/-- The declaration that a task executes in a state, if its expression has a value there. -/
def Task.declaration? (s : State) : Task → Option Declaration
  | statement u (.val name e span) =>
    (eval s.environment u.1.name e).toOption.map fun value => ⟨name, value, span⟩
  | _ => none

/-- The declarations that are executed if tasks are performed one after the other, up to the first
one that cannot be performed. -/
def declarations (s : State) : List Task → List Declaration
  | [] => []
  | t :: ts =>
    match t.perform s with
    | .error _ => []
    | .ok q => (t.declaration? s).toList ++ declarations q.1 ts

/-- The declarations of names that have been declared before: some are given, and the others come
from the declarations that stand in front. -/
def redeclared (names : List String) : List Declaration → List Declaration
  | [] => []
  | d :: ds => (if d.name ∈ names then [d] else []) ++ redeclared (d.name :: names) ds

namespace Declaration

def binding (d : Declaration) : String × Value := (d.name, d.value)

/-- The warning that a declaration takes the place of an earlier one. -/
def warning (u : ParsedUnit) (d : Declaration) : Diagnostic :=
  rebindingWarning u.1.name d.name (.ofSpan u.2.file d.span)

end Declaration

theorem declarations_cons_of_ok {s : State} {t : Task} {q : Progress} (h : t.perform s = .ok q)
    (ts : List Task) :
    declarations s (t :: ts) = (t.declaration? s).toList ++ declarations q.1 ts := by
  rw [declarations, h]

theorem declarations_cons_of_error {s : State} {t : Task} {stop : Stop}
    (h : t.perform s = .error stop) (ts : List Task) : declarations s (t :: ts) = [] := by
  rw [declarations, h]

theorem declarations_append {p q : Progress} {xs : List Task} (h : performAll p xs = .ok q)
    (ys : List Task) :
    declarations p.1 (xs ++ ys) = declarations p.1 xs ++ declarations q.1 ys := by
  induction xs generalizing p with
  | nil =>
    obtain rfl := Except.ok.inj h
    rfl
  | cons t ts ih =>
    obtain ⟨p', ht, hts⟩ := performAll_cons_eq_ok.1 h
    rw [List.cons_append, declarations_cons_of_ok ht, declarations_cons_of_ok ht, ih hts,
      List.append_assoc]

/-- What is declared stands in the tasks. -/
theorem exists_val_of_mem_declarations {s : State} {tasks : List Task} {d : Declaration}
    (h : d ∈ declarations s tasks) : ∃ u e, .statement u (.val d.name e d.span) ∈ tasks := by
  induction tasks generalizing s with
  | nil => simp [declarations] at h
  | cons t ts ih =>
    cases ht : t.perform s with
    | error stop => simp [declarations_cons_of_error ht] at h
    | ok q =>
      rw [declarations_cons_of_ok ht, List.mem_append, Option.mem_toList] at h
      rcases h with hfirst | hrest
      · unfold Task.declaration? at hfirst
        split at hfirst
        · obtain ⟨value, -, rfl⟩ := Option.map_eq_some_iff.1 hfirst
          exact ⟨_, _, List.mem_cons_self⟩
        · simp at hfirst
      · obtain ⟨u, e, hmem⟩ := ih hrest
        exact ⟨u, e, List.mem_cons_of_mem t hmem⟩

/-- What does not get its turn declares nothing. -/
theorem Halt.declarations_eq {p : Progress} {tasks : List Task} (halt : Halt p tasks) :
    declarations p.1 tasks = declarations p.1 halt.before := by
  calc declarations p.1 tasks
      = declarations p.1 (halt.before ++ halt.task :: halt.after) := by rw [← halt.tasks_eq]
    _ = declarations p.1 halt.before ++ declarations halt.reached.1 (halt.task :: halt.after) :=
        declarations_append halt.performed _
    _ = declarations p.1 halt.before := by
        rw [declarations_cons_of_error halt.stopped, List.append_nil]

theorem redeclared_append (names : List String) (ds ds' : List Declaration) :
    redeclared names (ds ++ ds') =
      redeclared names ds ++ redeclared ((ds.map (·.name)).reverse ++ names) ds' := by
  induction ds generalizing names with
  | nil => rfl
  | cons d ds ih =>
    rw [List.cons_append, redeclared, redeclared, ih, List.append_assoc]
    simp

/-- Behind some diagnostics, a unit has executed some declarations: its namespace holds their
bindings, and there is a warning for each that was not the first of its name. -/
structure Reflects (u : ParsedUnit) (front : List Diagnostic) (ds : List Declaration)
    (s : State) : Prop where
  own : ∃ own, s.environment.namespaces.find? u.1.name = some own ∧
    own.Holds (ds.map Declaration.binding)
  diagnostics : s.diagnostics = front ++ (redeclared [] ds).map (·.warning u)

namespace Reflects

variable {u : ParsedUnit} {front : List Diagnostic} {ds : List Declaration} {s : State}
  {p q : Progress}

/-- A unit that has just been started has declared nothing. -/
theorem start (h : (Task.start u).perform s = .ok q) : Reflects u s.diagnostics [] q.1 := by
  obtain ⟨-, rfl⟩ := perform_start_eq_ok h
  refine ⟨⟨.empty, ?_, Namespace.holds_empty⟩, (List.append_nil _).symm⟩
  exact Table.find?_insert_self _ _ _

/-- A name is bound exactly if an executed declaration has declared it. -/
theorem contains_iff {own : Namespace} (h : own.Holds (ds.map Declaration.binding))
    (name : String) : own.contains name = true ↔ name ∈ ds.map (·.name) := by
  rw [Table.contains_iff_mem_keys, h.keys_eq, namesIn, List.mem_eraseDups, List.map_map]
  rfl

/-- A declaration binds its name, and it is warned about if the name was bound. -/
theorem val {name : String} {e : Expr Value} {span : Span} (h : Reflects u front ds s)
    (hq : (Task.statement u (.val name e span)).perform s = .ok q) :
    ∃ value, (Task.statement u (.val name e span)).declaration? s = some ⟨name, value, span⟩ ∧
      Reflects u front (ds ++ [⟨name, value, span⟩]) q.1 := by
  obtain ⟨own, hown, hholds⟩ := h.own
  obtain ⟨value, own', hvalue, hown', henvironment, -, -, hdiagnostics, -⟩ := perform_val_eq_ok hq
  obtain rfl := Option.some.inj (hown.symm.trans hown')
  refine ⟨value, by simp [Task.declaration?, hvalue, Except.toOption], ?_, ?_⟩
  · refine ⟨own.insert name value, ?_, ?_⟩
    · rw [henvironment]
      exact Table.find?_insert_self _ _ _
    · rw [List.map_append]
      exact hholds.insert name value
  · have hredeclared : redeclared [] (ds ++ [⟨name, value, span⟩]) = redeclared [] ds ++
        if own.contains name then [⟨name, value, span⟩] else [] := by
      rw [redeclared_append]
      simp [redeclared, contains_iff hholds]
    rw [hdiagnostics, h.diagnostics, hredeclared, List.map_append, List.append_assoc]
    split <;> rfl

/-- One more statement of the unit. -/
theorem perform {st : Statement Value} (h : Reflects u front ds s)
    (hq : (Task.statement u st).perform s = .ok q) :
    Reflects u front (ds ++ ((Task.statement u st).declaration? s).toList) q.1 := by
  cases st with
  | val name e span =>
    obtain ⟨value, hdeclaration, hreflects⟩ := h.val hq
    rwa [hdeclaration]
  | print e span =>
    obtain ⟨_, _, -, -, rfl⟩ := perform_print_eq_ok hq
    simpa [Task.declaration?] using ⟨h.own, h.diagnostics⟩
  | expression e span =>
    obtain ⟨_, -, rfl⟩ := perform_expression_eq_ok.1 hq
    simpa [Task.declaration?] using h

/-- Any number of statements of the unit. -/
theorem performAll {sts : List (Statement Value)} (h : Reflects u front ds p.1)
    (hq : Interpreter.performAll p (sts.map (.statement u)) = .ok q) :
    Reflects u front (ds ++ declarations p.1 (sts.map (.statement u))) q.1 := by
  induction sts generalizing p ds with
  | nil =>
    obtain rfl := Except.ok.inj hq
    simpa [declarations] using h
  | cons st sts ih =>
    obtain ⟨p', hst, hrest⟩ := performAll_cons_eq_ok.1 hq
    have hfirst := h.perform hst
    rw [List.map_cons, declarations_cons_of_ok hst, ← List.append_assoc]
    exact ih hfirst hrest

/-- A unit from its start on. -/
theorem of_start {sts : List (Statement Value)}
    (hq : Interpreter.performAll p (.start u :: sts.map (.statement u)) = .ok q) :
    Reflects u p.1.diagnostics (declarations p.1 (.start u :: sts.map (.statement u))) q.1 := by
  obtain ⟨p', hstart, hrest⟩ := performAll_cons_eq_ok.1 hq
  rw [declarations_cons_of_ok hstart]
  exact (start hstart).performAll hrest

end Reflects

/-- Names hold no quotation mark, so the unit of a warning can be told from its message. -/
theorem unit_eq_of_rebindingWarning_eq {unit unit' name name' : String}
    {location location' : Location} (hname : WrittenAsName name) (hname' : WrittenAsName name')
    (h : rebindingWarning unit name location = rebindingWarning unit' name' location') :
    unit = unit' := by
  have hmessage := congrArg (fun d : Diagnostic => d.message.toList.reverse) h
  change (unit ++ ": '" ++ name ++ "' is already defined, the new value replaces it").toList.reverse
    = (unit' ++ ": '" ++ name' ++ "' is already defined, the new value replaces it").toList.reverse
    at hmessage
  have hseparator : ": '".toList.reverse = ['\'', ' ', ':'] := by decide
  simp only [String.toList_append, List.reverse_append, List.append_cancel_left_eq, hseparator,
    List.cons_append, List.nil_append] at hmessage
  have hquote {name : String} (h : WrittenAsName name) : '\'' ∉ name.toList := h.not_mem (by decide)
  -- From behind, the first quotation mark is the one in front of the name.
  have hreverse : name.toList.reverse = name'.toList.reverse :=
    before_eq_of_breaks (P := fun cs => '\'' ∉ cs) hmessage
      (by simpa using hquote hname) (by simpa using hquote hname')
      (fun _ => by simp) fun _ => by simp
  rw [hreverse] at hmessage
  exact String.toList_inj.1 (by simpa using hmessage)

theorem suffix_of_isRebinding {d : Diagnostic} {unit : String} (h : d.IsRebinding unit) :
    "it".toList <:+ d.message.toList := by
  obtain ⟨name, location, -, rfl⟩ := h
  change _ <:+ (_ ++ "' is already defined, the new value replaces it").toList
  rw [String.toList_append]
  exact List.IsSuffix.trans (by decide) (List.suffix_append _ _)

theorem suffix_of_annotationWarning {p : Program} {a : Annotation} {d : Diagnostic}
    (h : annotationWarning? p a = some d) : "ed".toList <:+ d.message.toList := by
  unfold annotationWarning? at h
  split at h
  · obtain rfl := Option.some.inj h
    change _ <:+ (_ ++ " is ignored").toList
    rw [String.toList_append]
    exact List.IsSuffix.trans (by decide) (List.suffix_append _ _)
  · split at h
    · obtain rfl := Option.some.inj h
      change _ <:+ (_ ++ " after the first statement is ignored").toList
      rw [String.toList_append]
      exact List.IsSuffix.trans (by decide) (List.suffix_append _ _)
    · simp at h

theorem not_isRebinding_annotationWarning {p : Program} {a : Annotation} {d : Diagnostic}
    (h : annotationWarning? p a = some d) (unit : String) : ¬ d.IsRebinding unit := by
  intro hrebinding
  rcases List.suffix_or_suffix_of_suffix (suffix_of_annotationWarning h)
    (suffix_of_isRebinding hrebinding) with hends | hends
  · exact absurd hends (by decide)
  · exact absurd hends (by decide)

theorem not_isRebinding_of_error {d : Diagnostic} (h : d.severity = .error) (unit : String) :
    ¬ d.IsRebinding unit := by
  rintro ⟨name, location, -, rfl⟩
  simp [rebindingWarning] at h

section

variable [CharacterNames] {r : Request} {scripts before after : List ParsedUnit} {u : ParsedUnit}
  {p q : Progress}

theorem AreScripts.writtenAsName (h : AreScripts r.units scripts) {name : String} {e : Expr Value}
    {span : Span} (hmem : .statement u (.val name e span) ∈ scripts.flatMap tasksOf) :
    WrittenAsName name := by
  obtain ⟨hu, hst⟩ := statement_mem_of_mem_tasks hmem
  exact (names_of_parse (h.parse_eq hu) _ hst).1

/-- The warnings of other units are not about values of this one. -/
theorem not_isRebinding_of_mem_rebindings (h : AreScripts r.units scripts) {unit : String}
    {tasks : List Task} (htasks : ∀ t ∈ tasks, t ∈ scripts.flatMap tasksOf ∧ t.unit.1.name ≠ unit)
    {bound : List (String × String)} {d : Diagnostic} (hd : d ∈ rebindings bound tasks) :
    ¬ d.IsRebinding unit := by
  obtain ⟨v, name, e, span, hmem, rfl⟩ := exists_val_of_mem_rebindings hd
  obtain ⟨hscript, hne⟩ := htasks _ hmem
  rintro ⟨name', location, hname', heq⟩
  exact hne (unit_eq_of_rebindingWarning_eq (h.writtenAsName hscript) hname' heq)

/-- An evaluation records the declarations of a unit: its namespace holds what they have bound, and
the warnings about new values of the unit are those of the declarations of declared names. -/
structure Records (u : ParsedUnit) (ds : List Declaration) (e : Evaluation) : Prop where
  names : ∀ d ∈ ds, WrittenAsName d.name
  own : ∃ own, e.namespaces.find? u.1.name = some own ∧ own.Holds (ds.map Declaration.binding)
  warnings : ∃ earlier later,
    e.diagnostics = earlier ++ (redeclared [] ds).map (·.warning u) ++ later ∧
    ∀ d ∈ earlier ++ later, ¬ d.IsRebinding u.1.name

/-- Of a unit that starts, some statements are executed, and all of its declarations are among them.
What is performed after them belongs to later units. -/
theorem Starts.exists_executed (h : Starts r before u after p)
    (hnames : (r.units.map (·.name)).Nodup) :
    ∃ (sts : List (Statement Value)) (rest : List Task) (q : Progress),
      tasksOf u = .start u :: sts.map (.statement u) ++ rest ∧
      performAll p (.start u :: sts.map (.statement u)) = .ok q ∧
      declarations p.1 (tasksOf u) = declarations p.1 (.start u :: sts.map (.statement u)) ∧
      ∃ (e : Evaluation) (more : List Task) (last : Progress) (report? : Option Diagnostic),
        (evaluate r).outcome = .ok e ∧ more <+: after.flatMap tasksOf ∧
        performAll q more = .ok last ∧ e.diagnostics = last.1.diagnostics ++ report?.toList ∧
        (∀ d ∈ report?, d.severity = .error) ∧
        e.namespaces = last.1.environment.namespaces := by
  cases hrun : performAll p (tasksOf u) with
  | ok q =>
    have htasks : (before ++ u :: after).flatMap tasksOf =
        (before.flatMap tasksOf ++ tasksOf u) ++ after.flatMap tasksOf := by simp
    obtain ⟨e, more, last, report?, he, hmore, hlast, -, hdiagnostics, herror, hnamespaces⟩ :=
      exists_last hnames h.scripts htasks ((performAll_append_of_ok h.performed _).trans hrun)
    exact ⟨u.2.statements, [], q, (List.append_nil _).symm, hrun, rfl, e, more, last, report?, he,
      hmore, hlast, hdiagnostics, herror, hnamespaces⟩
  | error stop =>
    obtain ⟨halt, -⟩ := exists_halt hrun
    obtain ⟨init, st, rest, -, hbefore, -⟩ := halt.exists_statement (h.new hnames)
    obtain ⟨fault, span, value, -, heval⟩ := h.exists_evaluate_of_halt hnames halt
    refine ⟨init, halt.task :: halt.after, halt.reached, hbefore ▸ halt.tasks_eq,
      hbefore ▸ halt.performed, hbefore ▸ halt.declarations_eq, _, [], halt.reached,
      some (Interruption.report u fault span), by rw [heval]; rfl, List.nil_prefix, rfl, rfl, ?_,
      rfl⟩
    intro d hd
    obtain rfl := Option.some.inj hd
    rfl

/-- The last binding of a name wins, and every new value is reported once: whether a unit runs to
its end or breaks off, the evaluation records the declarations that the unit has executed. -/
theorem Starts.exists_records (h : Starts r before u after p)
    (hnames : (r.units.map (·.name)).Nodup) :
    ∃ e, (evaluate r).outcome = .ok e ∧ Records u (declarations p.1 (tasksOf u)) e := by
  obtain ⟨sts, rest, q, htasks, hq, hdeclarations, e, more, last, report?, he, hmore, hlast,
    hdiagnostics, herror, hnamespaces⟩ := h.exists_executed hnames
  have hreflects := Reflects.of_start hq
  rw [hdeclarations]
  have hscripts : (before ++ u :: after).flatMap tasksOf =
      before.flatMap tasksOf ++ (tasksOf u ++ after.flatMap tasksOf) := by
    rw [List.flatMap_append, List.flatMap_cons]
  have hreached := (performAll_append_of_ok h.performed _).trans hq
  -- The units before and behind this one have other names.
  rw [← h.scripts.map_name, List.map_append, List.map_cons] at hnames
  obtain ⟨-, hnodup, hdisjoint⟩ := List.nodup_append.1 hnames
  have hbefore : ∀ t ∈ before.flatMap tasksOf, t.unit.1.name ≠ u.1.name := by
    intro t ht
    exact hdisjoint _ (List.mem_map_of_mem (unit_mem_of_mem_tasks ht)) _ List.mem_cons_self
  have hafter : ∀ t ∈ more, t.unit.1.name ≠ u.1.name := by
    intro t ht heq
    have hunit := unit_mem_of_mem_tasks (hmore.subset ht)
    exact (List.nodup_cons.1 hnodup).1 (heq ▸ List.mem_map_of_mem hunit)
  refine ⟨e, he, fun d hd => ?_, ?_, ?_⟩
  · obtain ⟨v, expr, hmem⟩ := exists_val_of_mem_declarations hd
    have hval : Task.statement v (.val d.name expr d.span) ∈
        (before ++ u :: after).flatMap tasksOf := by
      rw [hscripts, htasks]
      exact List.mem_append_right _ (List.mem_append_left _ (List.mem_append_left _ hmem))
    exact h.scripts.writtenAsName hval
  · rw [hnamespaces, find?_performAll hlast hafter]
    exact hreflects.own
  · obtain ⟨bound, hlater⟩ := exists_rebindings_append []
      (before.flatMap tasksOf ++ .start u :: sts.map (.statement u)) more
    have hend : last.1.diagnostics = q.1.diagnostics ++ rebindings bound more := by
      rw [diagnostics_of_performAll ((performAll_append_of_ok hreached more).trans hlast),
        diagnostics_of_performAll hreached, hlater, List.append_assoc]
    refine ⟨p.1.diagnostics, rebindings bound more ++ report?.toList, ?_, fun d hd => ?_⟩
    · rw [hdiagnostics, hend, hreflects.diagnostics, List.append_assoc]
    · rw [diagnostics_of_performAll h.performed, List.mem_append, List.mem_append,
        List.mem_append] at hd
      rcases hd with (hwarning | hrebinding) | hrebinding | hreport
      · obtain ⟨v, -, hv⟩ := List.mem_flatMap.1 hwarning
        obtain ⟨a, -, ha⟩ := List.mem_filterMap.1 hv
        exact not_isRebinding_annotationWarning ha _
      · refine not_isRebinding_of_mem_rebindings h.scripts (fun t ht => ⟨?_, hbefore t ht⟩)
          hrebinding
        rw [hscripts]
        exact List.mem_append_left _ ht
      · refine not_isRebinding_of_mem_rebindings h.scripts (fun t ht => ⟨?_, hafter t ht⟩)
          hrebinding
        rw [hscripts]
        exact List.mem_append_right _ (List.mem_append_right _ (hmore.subset ht))
      · exact not_isRebinding_of_error (herror d (Option.mem_toList.1 hreport)) _

end

/-- A root that declares names again, one of them also a name of the script that it imports, and
breaks off before its last declaration. -/
def redeclaring : Request where
  root := ⟨.ofString "/w/scripts/main.custom.kts", "Main",
    "val y = x\nval x = x + 1\nval x = x + y\nval y = 3\n1 / 0\nval x = 9\n"⟩
  imports := [⟨.ofString "/w/scripts/a.custom.kts", "A", "val x = 1\nval x = 2\n"⟩]
  dependencies := .ofList [("A", []), ("Main", ["A"])]

attribute [local instance] CharacterNames.none

theorem records_redeclaring : (redeclaring.units.map (·.name)).Nodup ∧
    ∃ before u after p e, Starts redeclaring before u after p ∧ u.1.name = "Main" ∧
      (evaluate redeclaring).outcome = .ok e ∧ Records u (declarations p.1 (tasksOf u)) e ∧
      e.diagnostics.map (fun d => (d.severity, d.message)) =
        [(.warning, "A: 'x' is already defined, the new value replaces it"),
          (.warning, "Main: 'x' is already defined, the new value replaces it"),
          (.warning, "Main: 'y' is already defined, the new value replaces it"),
          (.error, "Main: Division by zero")] ∧
      (e.namespaces.find? "Main").map (·.entries.map fun b => (b.1, b.2.text?)) =
        some [("y", some ("3" : ScriptText)), ("x", some "5")] := by
  have hnames : (redeclaring.units.map (·.name)).Nodup := by decide
  have hrun : ((evaluate redeclaring).events.contains
        (.started "Main" (.ofString "/w/scripts/main.custom.kts")),
      (evaluate redeclaring).outcome.toOption.map
        (·.diagnostics.map fun d => (d.severity, d.message))) =
      (true, some
        [(.warning, "A: 'x' is already defined, the new value replaces it"),
          (.warning, "Main: 'x' is already defined, the new value replaces it"),
          (.warning, "Main: 'y' is already defined, the new value replaces it"),
          (.error, "Main: Division by zero")]) := by decide +kernel
  have hown : ((evaluate redeclaring).outcome.toOption.bind fun e =>
        (e.namespaces.find? "Main").map (·.entries.map fun b => (b.1, b.2.text?))) =
      some [("y", some ("3" : ScriptText)), ("x", some "5")] := by decide +kernel
  obtain ⟨hstarts, hmessages⟩ := Prod.mk.inj hrun
  obtain ⟨before, u, after, p, hu, hname, -⟩ :=
    (started_mem_events_iff hnames _ _).1 (List.contains_iff_mem.1 hstarts)
  obtain ⟨e, he, hrecords⟩ := hu.exists_records hnames
  refine ⟨hnames, before, u, after, p, e, hu, hname, he, hrecords, ?_, ?_⟩
  · simpa [he, Except.toOption] using hmessages
  · simpa [he, Except.toOption] using hown

end Interpreter

end ScriptRunner
