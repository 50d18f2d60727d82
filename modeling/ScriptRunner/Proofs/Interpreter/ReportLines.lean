import ScriptRunner.Proofs.Interpreter.Annotations
import ScriptRunner.Proofs.Interpreter.MessageLines
import ScriptRunner.Proofs.Interpreter.SharedNames
import ScriptRunner.Proofs.Text.Split

/-!
# Reports that no script can forge

A failure report tells its lines apart by line feeds only. All messages of an evaluation are of one
line, whatever the texts of the units are, so the lines of the report are the header and one line
for each diagnostic, and no script can write a line of its own.

## Main definitions

* `Quotable` - what messages quote of a unit holds no line feed.
* `ReportedInLines` - an evaluation is reported with a header and a line for each diagnostic.

## Main statements

* `AreScripts.quotable` - scripts are quotable if their units have names of one line.
* `isLine_of_evaluate` - no message of an evaluation holds a line feed.
* `evaluate_reportedInLines` - the report of an evaluation has a line for each diagnostic.
-/

namespace ScriptRunner

theorem Severity.isLine_text (severity : Severity) : IsLine severity.text := by
  cases severity <;> exact isLine_ofList (by decide)

theorem Diagnostic.isLine_line {d : Diagnostic} (h : IsLine d.message) : IsLine d.line :=
  (d.severity.isLine_text.between (by decide)).append h

/-- The lines of a text, the line feeds between them left out. -/
def linesOf (text : String) : List String :=
  (Text.splitWhere (· == '\n') text.toList).map String.ofList

/-- The lines of a report are those that it is put together from. -/
theorem linesOf_report {ds : List Diagnostic} (h : ∀ d ∈ ds, IsLine d.message) :
    linesOf (report ds) = reportHeader :: ds.map Diagnostic.line := by
  have hlines : ∀ line ∈ reportHeader :: ds.map Diagnostic.line, '\n' ∉ line.toList := by
    refine List.forall_mem_cons.2 ⟨isLine_ofList (by decide), fun line hline => ?_⟩
    obtain ⟨d, hd, rfl⟩ := List.mem_map.1 hline
    exact Diagnostic.isLine_line (h d hd)
  have hsplit := Text.splitWhere_intercalate (List.cons_ne_nil _ _) hlines
  rw [show String.singleton '\n' = "\n" from rfl] at hsplit
  rw [linesOf, report, hsplit, List.map_map]
  exact (List.map_congr_left fun line _ => String.ofList_toList).trans (List.map_id _)

namespace Interpreter

open Script

/-- What messages quote of a unit holds no line feed: its name, and the names in its script. -/
structure Quotable (u : ParsedUnit) : Prop where
  name : IsLine u.1.name
  statements : ∀ st ∈ u.2.statements, st.Names WrittenAsName
  annotations : ∀ a ∈ u.2.annotations, WrittenAsName a.target ∧ WrittenAsName a.name

/-- Units with shared scripts are some of the units, each with the script of one of them. -/
theorem exists_of_mem_shareByName {scripts : List ParsedUnit} {u : ParsedUnit}
    (h : u ∈ shareByName scripts) : ∃ v ∈ scripts, ∃ w ∈ scripts, u = (v.1, w.2) := by
  obtain ⟨v, hv, rfl⟩ := List.mem_map.1 h
  refine ⟨v, hv, ?_⟩
  cases hfind : (Table.ofList (scripts.map fun u => (u.1.name, u.2))).find? v.1.name with
  | none => exact ⟨v, hv, rfl⟩
  | some program =>
    obtain ⟨w, hw, heq⟩ := List.mem_map.1 (Table.mem_of_find?_ofList hfind)
    exact ⟨w, hw, congrArg (v.1, ·) (Prod.mk.inj heq).2.symm⟩

section Runs

variable {r : Request} {scripts : List ParsedUnit}

/-- What is reported while units run, and of their annotations before, has messages of one line. -/
theorem isLine_of_performAll (hscripts : ∀ u ∈ scripts, Quotable u) {done : List Task}
    {q : Progress} (hdone : done <+: scripts.flatMap tasksOf)
    (h : performAll (startState r scripts, none) done = .ok q) :
    ∀ d ∈ q.1.diagnostics, IsLine d.message := by
  intro d hd
  rw [diagnostics_of_performAll h, List.mem_append] at hd
  rcases hd with hd | hd
  · obtain ⟨u, hu, hd⟩ := List.mem_flatMap.1 hd
    obtain ⟨a, ha, hwarning⟩ := List.mem_filterMap.1 hd
    obtain ⟨htarget, hname⟩ := (hscripts u hu).annotations a ha
    exact isLine_annotationWarning htarget hname hwarning
  · obtain ⟨u, name, e, span, htask, rfl⟩ := exists_val_of_mem_rebindings hd
    obtain ⟨hu, hst⟩ := statement_mem_of_mem_tasks (hdone.subset htask)
    have hnames := (hscripts u hu).statements _ hst
    exact isLine_rebindingWarning (hscripts u hu).name hnames.1 _

/-- Units that break off with a fault do so at a unit that has not been entered before. -/
theorem Interruption.new_of_fault (i : Interruption (startState r scripts, none) scripts)
    {fault : Fault} {span : Span} (hstop : i.halt.stop = .fault fault span) :
    i.unit.1.name ∉ i.reached.1.environment.namespaces.keys := by
  have hstart : (startState r scripts).environment.namespaces.keys = [] := rfl
  intro hseen
  rw [i.keys_reached hstart] at hseen
  have hmisuse := (i.stop_eq_misuse_iff hstart _).2 ⟨hseen, rfl⟩
  simp [hstop] at hmisuse

/-- A run that breaks off with a fault reports it in one line, as everything before. -/
theorem isLine_of_interruption (hscripts : ∀ u ∈ scripts, Quotable u)
    (i : Interruption (startState r scripts, none) scripts) {fault : Fault} {span : Span}
    (hstop : i.halt.stop = .fault fault span) :
    ∀ d ∈ i.halt.reached.1.diagnostics ++ [Interruption.report i.unit fault span],
      IsLine d.message := by
  obtain ⟨init, st, rest, fault', span', hstatements, -, hstop', hfault⟩ :=
    i.exists_fault_of_new (i.new_of_fault hstop)
  obtain ⟨rfl, rfl⟩ := Stop.fault.inj (hstop.symm.trans hstop')
  have hquotable := hscripts i.unit i.unit_mem
  have hst : st.Names WrittenAsName := by
    refine hquotable.statements st ?_
    rw [hstatements]
    exact List.mem_append_right _ List.mem_cons_self
  intro d hd
  rcases List.mem_append.1 hd with hd | hd
  · exact isLine_of_performAll hscripts ⟨_, i.toHalt.tasks_eq.symm⟩ i.toHalt.performed d hd
  · obtain rfl := List.mem_singleton.1 hd
    refine isLine_report hquotable.name ?_ span
    rcases hfault with hfails | rfl
    · exact hfails.isLine_message hst.body
    · exact OperatorFault.isLine_message (by simp [OperatorFault.symbol?])

theorem isLine_of_runAll (hscripts : ∀ u ∈ scripts, Quotable u) {e : Evaluation}
    (he : (runAll r.dependencies scripts).outcome = .ok e) :
    ∀ d ∈ e.diagnostics, IsLine d.message := by
  rcases runUnits_cases scripts (startState r scripts, none) with ⟨q, hq, hrun⟩ | ⟨i, hrun⟩
  · rw [runAll_of_ok hrun] at he
    obtain rfl := Except.ok.inj he
    exact isLine_of_performAll hscripts List.prefix_rfl hq
  · cases hstop : i.halt.stop with
    | misuse fault =>
      rw [runAll_of_misuse hrun hstop] at he
      simp at he
    | fault fault span =>
      rw [runAll_of_fault hrun hstop] at he
      obtain rfl := Except.ok.inj he
      exact isLine_of_interruption hscripts i hstop

end Runs

/-- An evaluation is reported in lines: no message holds a line feed, the lines of the report are
the header and then one for each diagnostic, in their order, and that is what is printed of a
failure. -/
structure ReportedInLines (e : Evaluation) : Prop where
  messages : ∀ d ∈ e.diagnostics, IsLine d.message
  lines : linesOf (report e.diagnostics) = reportHeader :: e.diagnostics.map Diagnostic.line
  printed : e.success = false → printed e.diagnostics = report e.diagnostics ++ "\n"

theorem reportedInLines_of {e : Evaluation} (h : ∀ d ∈ e.diagnostics, IsLine d.message) :
    ReportedInLines e where
  messages := h
  lines := linesOf_report h
  printed hfailure := if_pos (by simpa [Evaluation.success] using hfailure)

section

variable [CharacterNames]

theorem AreScripts.quotable {units : List ScriptUnit} {scripts : List ParsedUnit}
    (h : AreScripts units scripts) (hunits : ∀ u ∈ units, IsLine u.name) :
    ∀ u ∈ shareByName scripts, Quotable u := by
  intro u hu
  obtain ⟨v, hv, w, hw, rfl⟩ := exists_of_mem_shareByName hu
  have hunit : v.1 ∈ units := by
    rw [← h.map_unit]
    exact List.mem_map_of_mem hv
  have hparse := h.parse_eq hw
  exact ⟨hunits v.1 hunit, names_of_parse hparse, names_of_parse_annotations hparse⟩

section Evaluations

variable {r : Request}

/-- No message of an evaluation holds a line feed, whatever the texts of its units are. -/
theorem isLine_of_evaluate (hunits : ∀ u ∈ r.units, IsLine u.name ∧ IsLine u.path.toString)
    {e : Evaluation} (he : (evaluate r).outcome = .ok e) :
    ∀ d ∈ e.diagnostics, IsLine d.message := by
  rcases evaluate_by_checks r with ⟨-, heval⟩ | ⟨-, -, heval⟩ | ⟨-, scripts, hscripts, heval⟩
  · rw [heval] at he
    obtain rfl := Except.ok.inj he
    exact isLine_of_mem_nameReports hunits (by simp)
  · rw [heval] at he
    obtain rfl := Except.ok.inj he
    intro d hd
    obtain ⟨u, hu, error, hunread, rfl⟩ := mem_parseReports_iff.1 hd
    exact isLine_message_of_parse (hunits u hu).2 (unread_iff.1 hunread)
  · rw [heval] at he
    exact isLine_of_runAll (hscripts.quotable fun u hu => (hunits u hu).1) he

/-- If the names and paths of its units hold no line feed, then an evaluation is reported in lines.
There is an evaluation unless units share a name and the second of them is to run. -/
theorem evaluate_reportedInLines
    (hunits : ∀ u ∈ r.units, IsLine u.name ∧ IsLine u.path.toString) :
    (∃ e, (evaluate r).outcome = .ok e ∧ ReportedInLines e) ∨
      ¬ (r.units.map (·.name)).Nodup ∧
        ∃ name, (evaluate r).outcome = .error (repetitionFailure name) := by
  cases hout : (evaluate r).outcome with
  | ok e => exact .inl ⟨e, rfl, reportedInLines_of (isLine_of_evaluate hunits hout)⟩
  | error failure =>
    obtain ⟨-, scripts, name, hscripts, hrun, rfl⟩ := (evaluate_eq_error_iff r failure).1 hout
    have hnames := hrun.not_nodup
    rw [map_name_shareByName, hscripts.map_name] at hnames
    exact .inr ⟨hnames, name, rfl⟩

end Evaluations

/-- A script with a text that looks like a line of a report. It gives the text to one name twice,
and then it fails at it. -/
def forging : Request where
  root := ⟨.ofString "/w/main.custom.kts", "Main",
    "val x = \"a\\n - [FATAL] b\"\nval x = x\nx - 1\n"⟩
  imports := []
  dependencies := .ofList [("Main", [])]

end

attribute [local instance] CharacterNames.none

theorem reportedInLines_forging :
    (∀ u ∈ forging.units, IsLine u.name ∧ IsLine u.path.toString) ∧
    ∃ e, (evaluate forging).outcome = .ok e ∧ ReportedInLines e ∧
      linesOf (report e.diagnostics) = ["Script evaluation failed:",
        " - [WARNING] Main: 'x' is already defined, the new value replaces it",
        " - [ERROR] Main: Operator '-' is not defined for String and Int"] := by
  have hunits : ∀ u ∈ forging.units, IsLine u.name ∧ IsLine u.path.toString := by decide +kernel
  have hreport : (evaluate forging).outcome.toOption.map (·.diagnostics.map Diagnostic.line) =
      some [" - [WARNING] Main: 'x' is already defined, the new value replaces it",
        " - [ERROR] Main: Operator '-' is not defined for String and Int"] := by decide +kernel
  refine ⟨hunits, ?_⟩
  rcases evaluate_reportedInLines hunits with ⟨e, he, hlines⟩ | ⟨hnames, -⟩
  · rw [he] at hreport
    refine ⟨e, he, hlines, ?_⟩
    exact hlines.lines.trans (congrArg (reportHeader :: ·) (Option.some.inj hreport))
  · exact absurd (by decide) hnames

end Interpreter

end ScriptRunner
