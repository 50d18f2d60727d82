import Mathlib.Data.List.Nodup
import ScriptRunner.Proofs.Interpreter.Requests
import ScriptRunner.Proofs.Streams

/-!
# Units that share a name

A request may give one name to several units. If two of them stand at different paths, nothing runs
and the names are reported. If all units of a name stand at one path, there is no report: the units
run, and the second entry of the name is a wrong use of the environment, which ends the evaluation
without a result.

## Main definitions

* `Clash` - two units have one name and different paths.
* `OnlyReportsDuplicates` - an evaluation reports shared names and does nothing else.
* `RunsToRepetition` - a run gets to a unit with the name of an earlier one.

## Main statements

* `nameReports_eq_nil_iff` - which units pass the check of names.
* `Interruption.stop_eq_misuse_iff` - the only wrong use of the environment.
* `duplicates_reported_iff` - which requests are guarded against shared names, on every stream.
-/

namespace ScriptRunner

/-- A report says that two paths share a name. -/
def Diagnostic.IsDuplicate (d : Diagnostic) : Prop :=
  ∃ (name : String) (first second : Path),
    d = ⟨.fatal, s!"Duplicate compilation unit '{name}': {first} and {second}", none⟩

namespace Interpreter

open Script

/-- Two units have one name and stand at different paths. -/
def Clash (units : List ScriptUnit) : Prop :=
  ∃ u ∈ units, ∃ v ∈ units, u.name = v.name ∧ u.path ≠ v.path

instance (units : List ScriptUnit) : Decidable (Clash units) :=
  inferInstanceAs (Decidable (∃ u ∈ units, ∃ v ∈ units, u.name = v.name ∧ u.path ≠ v.path))

theorem isDuplicate_of_mem_nameReports {units : List ScriptUnit} {seen : Table String Path} :
    ∀ d ∈ nameReports seen units, d.IsDuplicate := by
  induction units generalizing seen with
  | nil => simp [nameReports]
  | cons u units ih =>
    unfold nameReports
    split
    · exact ih
    next path _ =>
      split
      · exact ih
      · intro d hd
        rcases List.mem_cons.1 hd with rfl | hd
        · exact ⟨u.name, path, u.path, rfl⟩
        · exact ih d hd

/-- A clash involves the first unit or lies among the others. -/
theorem clash_cons_iff (u : ScriptUnit) (units : List ScriptUnit) :
    Clash (u :: units) ↔ (∃ v ∈ units, v.name = u.name ∧ v.path ≠ u.path) ∨ Clash units := by
  constructor
  · rintro ⟨v, hv, w, hw, hname, hpath⟩
    rcases List.mem_cons.1 hv with hvu | hvin <;> rcases List.mem_cons.1 hw with hwu | hwin
    · exact absurd (congrArg ScriptUnit.path (hvu.trans hwu.symm)) hpath
    · exact .inl ⟨w, hwin, hvu ▸ hname.symm, hvu ▸ Ne.symm hpath⟩
    · exact .inl ⟨v, hvin, hwu ▸ hname, hwu ▸ hpath⟩
    · exact .inr ⟨v, hvin, w, hwin, hname, hpath⟩
  · rintro (⟨v, hv, hname, hpath⟩ | ⟨v, hv, w, hw, h⟩)
    · exact ⟨v, List.mem_cons_of_mem u hv, u, List.mem_cons_self, hname, hpath⟩
    · exact ⟨v, List.mem_cons_of_mem u hv, w, List.mem_cons_of_mem u hw, h⟩

/-- Units stand where a table of paths puts their names, as far as it knows the names. -/
def StandAt (seen : Table String Path) (units : List ScriptUnit) : Prop :=
  ∀ u ∈ units, ∀ path, seen.find? u.name = some path → u.path = path

/-- The table with the first unit leaves the other units where they stand unless they clash with
it. -/
theorem standAt_insert_iff {seen : Table String Path} {u : ScriptUnit} {units : List ScriptUnit}
    (hu : ∀ path, seen.find? u.name = some path → u.path = path) :
    StandAt (seen.insert u.name u.path) units ↔
      StandAt seen (u :: units) ∧ ¬ ∃ v ∈ units, v.name = u.name ∧ v.path ≠ u.path := by
  constructor
  · intro hstand
    have hfirst : ∀ v ∈ units, v.name = u.name → v.path = u.path := fun v hv hname =>
      hstand v hv u.path (by rw [hname, Table.find?_insert_self])
    refine ⟨fun v hv path hpath => ?_, fun ⟨v, hv, hname, hne⟩ => hne (hfirst v hv hname)⟩
    rcases List.mem_cons.1 hv with rfl | hv
    · exact hu path hpath
    by_cases hname : v.name = u.name
    · exact (hfirst v hv hname).trans (hu path (hname ▸ hpath))
    · exact hstand v hv path (by rwa [Table.find?_insert_of_ne _ _ (Ne.symm hname)])
  · rintro ⟨hstand, hclash⟩ v hv path hpath
    by_cases hname : v.name = u.name
    · rw [hname, Table.find?_insert_self] at hpath
      obtain rfl := Option.some.inj hpath
      by_contra hne
      exact hclash ⟨v, hv, hname, hne⟩
    · rw [Table.find?_insert_of_ne _ _ (Ne.symm hname)] at hpath
      exact hstand v (List.mem_cons_of_mem u hv) path hpath

/-- There is nothing to report exactly if each unit stands where the table puts its name, or where
the first unit of that name stands. -/
theorem nameReports_eq_nil_iff_of_seen (units : List ScriptUnit) (seen : Table String Path) :
    nameReports seen units = [] ↔ StandAt seen units ∧ ¬ Clash units := by
  induction units generalizing seen with
  | nil => simp [nameReports, Clash, StandAt]
  | cons u units ih =>
    unfold nameReports
    rw [clash_cons_iff, not_or, ← and_assoc]
    cases hseen : seen.find? u.name with
    | none =>
      rw [ih, standAt_insert_iff (by simp [hseen])]
    | some first =>
      by_cases hfirst : first = u.path
      · -- A name that is known already need not be put into the table again.
        have hu : ∀ path, seen.find? u.name = some path → u.path = path := fun path hpath =>
          hfirst.symm.trans (Option.some.inj (hseen.symm.trans hpath))
        have hsame : StandAt (seen.insert u.name u.path) units ↔ StandAt seen units := by
          refine forall₂_congr fun v _ => forall_congr' fun path => ?_
          rw [Table.find?_insert]
          by_cases hname : u.name = v.name
          · rw [if_pos hname, ← hname, hseen, hfirst]
          · rw [if_neg hname]
        simp only [hfirst, if_true]
        rw [ih, ← standAt_insert_iff hu, hsame]
      · simp only [hfirst, if_false]
        refine iff_of_false (by simp) fun h => hfirst ?_
        exact (h.1.1 u List.mem_cons_self first hseen).symm

/-- The check of names passes exactly the units without a clash. -/
theorem nameReports_eq_nil_iff (units : List ScriptUnit) :
    nameReports .empty units = [] ↔ ¬ Clash units := by
  rw [nameReports_eq_nil_iff_of_seen]
  exact and_iff_right fun u _ path h => by simp at h

theorem not_clash_of_nodup {units : List ScriptUnit} (h : (units.map (·.name)).Nodup) :
    ¬ Clash units := by
  rintro ⟨u, hu, v, hv, hname, hpath⟩
  exact hpath (congrArg ScriptUnit.path (List.inj_on_of_nodup_map h hu hv hname))

theorem map_name_shareByName (scripts : List ParsedUnit) :
    (shareByName scripts).map (·.1.name) = scripts.map (·.1.name) := by
  simp [shareByName, Function.comp_def]

/-- A unit whose name has been entered cannot be started. -/
theorem perform_start_of_mem {s : State} {u : ParsedUnit}
    (h : u.1.name ∈ s.environment.namespaces.keys) :
    (Task.start u).perform s = .error (.misuse (.enteredTwice u.1.name)) := by
  simp [Task.perform, Environment.enter, (Table.contains_iff_mem_keys _ _).2 h]

/-- The units that run break off at a wrong use of the environment exactly if they get to a unit
with the name of an earlier one. -/
theorem Interruption.stop_eq_misuse_iff {p : Progress} {units : List ParsedUnit}
    (i : Interruption p units) (hp : p.1.environment.namespaces.keys = []) (fault : UnitFault) :
    i.halt.stop = .misuse fault ↔
      i.unit.1.name ∈ i.before.map (·.1.name) ∧ fault = .enteredTwice i.unit.1.name := by
  have hkeys := i.keys_reached hp
  by_cases hseen : i.unit.1.name ∈ i.reached.1.environment.namespaces.keys
  · have hstop : i.halt.stop = .misuse (.enteredTwice i.unit.1.name) :=
      Except.error.inj (i.halt.performAll_eq_error.symm.trans
        (performAll_cons_of_error (perform_start_of_mem hseen) _))
    rw [hstop, ← hkeys, and_iff_right hseen, Stop.misuse.injEq, eq_comm]
  · obtain ⟨_, _, _, _, _, -, -, hstop, -⟩ := i.exists_fault_of_new hseen
    rw [hkeys] at hseen
    simp [hstop, hseen]

/-- The run of units gets to one with the name of an earlier one: the units before it run to their
end. -/
def RunsToRepetition (r : Request) (scripts : List ParsedUnit) (name : String) : Prop :=
  ∃ before u after q, scripts = before ++ u :: after ∧
    performAll (startState r scripts, none) (before.flatMap tasksOf) = .ok q ∧
    name ∈ before.map (·.1.name) ∧ u.1.name = name

section Runs

variable {r : Request} {scripts : List ParsedUnit}

theorem runsToRepetition_iff {name : String} : RunsToRepetition r scripts name ↔
    performAll (startState r scripts, none) (scripts.flatMap tasksOf) =
      .error (.misuse (.enteredTwice name)) := by
  have hstart : (startState r scripts).environment.namespaces.keys = [] := rfl
  constructor
  · rintro ⟨before, u, after, q, hunits, hq, hseen, rfl⟩
    have hentered : u.1.name ∈ q.1.environment.namespaces.keys := by
      rwa [(extends_performAll hq).keys, hstart, started_units, List.nil_append]
    have htasks : scripts.flatMap tasksOf = before.flatMap tasksOf ++
        .start u :: (u.2.statements.map (.statement u) ++ after.flatMap tasksOf) := by
      simp [hunits, tasksOf]
    rw [htasks, performAll_append_of_ok hq,
      performAll_cons_of_error (perform_start_of_mem hentered)]
  · intro herror
    rcases runUnits_cases scripts (startState r scripts, none) with ⟨q, hq, -⟩ | ⟨i, -⟩
    · simp [hq] at herror
    · have hstop := Except.error.inj (i.performAll_eq_error.symm.trans herror)
      obtain ⟨hseen, hfault⟩ := (i.stop_eq_misuse_iff hstart _).1 hstop
      obtain rfl := UnitFault.enteredTwice.inj hfault
      exact ⟨i.before, i.unit, i.after, i.reached, i.units_eq, i.performed, hseen, rfl⟩

/-- Of units with distinct names none is repeated. -/
theorem RunsToRepetition.not_nodup {name : String} (h : RunsToRepetition r scripts name) :
    ¬ (scripts.map (·.1.name)).Nodup := by
  obtain ⟨before, u, after, q, rfl, -, hseen, rfl⟩ := h
  rw [List.map_append, List.map_cons]
  exact fun hnames => absurd rfl ((List.nodup_append.1 hnames).2.2 _ hseen _ List.mem_cons_self)

/-- The failure of an evaluation that gets to a unit with the name of an earlier one. -/
def repetitionFailure (name : String) : EngineFailure :=
  .other (UnitFault.enteredTwice name).kind (UnitFault.enteredTwice name).message

/-- Running units ends without a result exactly if it gets to a unit with the name of an earlier
one. -/
theorem runAll_eq_error_iff {failure : EngineFailure} :
    (runAll r.dependencies scripts).outcome = .error failure ↔
      ∃ name, RunsToRepetition r scripts name ∧ failure = repetitionFailure name := by
  have hstart : (startState r scripts).environment.namespaces.keys = [] := rfl
  simp only [runsToRepetition_iff]
  rcases runUnits_cases scripts (startState r scripts, none) with ⟨q, hq, hrun⟩ | ⟨i, hrun⟩
  · rw [runAll_of_ok hrun, hq]
    simp [State.evaluating]
  · rw [i.performAll_eq_error]
    cases hstop : i.halt.stop with
    | misuse fault =>
      obtain ⟨-, rfl⟩ := (i.stop_eq_misuse_iff hstart fault).1 hstop
      rw [runAll_of_misuse hrun hstop]
      simp [repetitionFailure, eq_comm]
    | fault fault span =>
      rw [runAll_of_fault hrun hstop]
      simp [State.evaluating]

/-- A run of units leaves an event - at least that it is done - or has no result. -/
theorem events_ne_nil_or_error_runAll : (runAll r.dependencies scripts).events ≠ [] ∨
    ∃ failure, (runAll r.dependencies scripts).outcome = .error failure := by
  cases hrun : runUnits (startState r scripts) none scripts with
  | mk s outcome =>
    cases outcome with
    | ok value =>
      rw [runAll_of_ok hrun]
      exact .inl (by simp [State.evaluating])
    | error fault =>
      rw [runAll_of_error hrun]
      exact .inr ⟨_, rfl⟩

end Runs

/-- An evaluation reports names that units share and does nothing else: no unit has been read or
run. -/
def OnlyReportsDuplicates (x : Evaluating) : Prop :=
  ∃ ds, ds ≠ [] ∧ (∀ d ∈ ds, d.IsDuplicate) ∧ x = ⟨[], .ok { diagnostics := ds }⟩

section

variable [CharacterNames]

/-- The evaluation of a request: it reports shared names, or texts that are no scripts, or it runs
the units. -/
theorem evaluate_by_checks (r : Request) :
    (Clash r.units ∧ evaluate r = ⟨[], .ok { diagnostics := nameReports .empty r.units }⟩) ∨
    (¬ Clash r.units ∧ (∀ scripts, ¬ AreScripts r.units scripts) ∧
      evaluate r = ⟨[], .ok { diagnostics := (readUnits r.units).filterMap parseReport? }⟩) ∨
    (¬ Clash r.units ∧ ∃ scripts, AreScripts r.units scripts ∧
      evaluate r = runAll r.dependencies (shareByName scripts)) := by
  by_cases hclash : Clash r.units
  · refine .inl ⟨hclash, ?_⟩
    cases hreports : nameReports .empty r.units with
    | nil => exact absurd hclash ((nameReports_eq_nil_iff _).1 hreports)
    | cons d ds => simp only [evaluate, hreports]
  · have hreports := (nameReports_eq_nil_iff _).2 hclash
    rcases areScripts_or_report r.units with ⟨scripts, hscripts⟩ | ⟨d, ds, hparse⟩
    · refine .inr (.inr ⟨hclash, scripts, hscripts, ?_⟩)
      simp only [evaluate, hreports, hscripts.reports_eq_nil, hscripts.parsed_eq]
    · refine .inr (.inl ⟨hclash, fun scripts hscripts => ?_, ?_⟩)
      · rw [hscripts.reports_eq_nil] at hparse
        exact absurd hparse (by simp)
      · simp only [evaluate, hreports, hparse]

/-- Exactly a clash of units is reported as a shared name. -/
theorem onlyReportsDuplicates_iff (r : Request) :
    OnlyReportsDuplicates (evaluate r) ↔ Clash r.units := by
  rcases evaluate_by_checks r with
    ⟨hclash, heval⟩ | ⟨hclash, hnone, heval⟩ | ⟨hclash, scripts, hscripts, heval⟩
  · refine iff_of_true ⟨_, fun hnil => ?_, isDuplicate_of_mem_nameReports, heval⟩ hclash
    exact (nameReports_eq_nil_iff _).1 hnil hclash
  · refine iff_of_false ?_ hclash
    rintro ⟨ds, hne, hall, hds⟩
    rw [heval] at hds
    -- Texts that are no scripts are reported as errors.
    obtain rfl : (readUnits r.units).filterMap parseReport? = ds := by
      simpa using hds
    obtain ⟨d, hd⟩ := List.exists_mem_of_ne_nil _ hne
    obtain ⟨name, first, second, heq⟩ := hall d hd
    obtain ⟨⟨u, _ | _⟩, -, hu⟩ := List.mem_filterMap.1 hd
    · rw [heq] at hu
      simp [parseReport?] at hu
    · simp [parseReport?] at hu
  · refine iff_of_false ?_ hclash
    rintro ⟨ds, -, -, hds⟩
    rw [heval] at hds
    have hrun := @events_ne_nil_or_error_runAll r (shareByName scripts)
    rcases hrun with h | ⟨failure, h⟩
    · exact h (by rw [hds])
    · simp [hds] at h

/-- An evaluation has no result exactly if no units clash, the texts of all units are scripts, and
the run of the units, each with the last script of its name, gets to a repeated name. -/
theorem evaluate_eq_error_iff (r : Request) (failure : EngineFailure) :
    (evaluate r).outcome = .error failure ↔ ¬ Clash r.units ∧ ∃ scripts name,
      AreScripts r.units scripts ∧ RunsToRepetition r (shareByName scripts) name ∧
      failure = repetitionFailure name := by
  rcases evaluate_by_checks r with
    ⟨hclash, heval⟩ | ⟨hclash, hnone, heval⟩ | ⟨hclash, scripts, hscripts, heval⟩
  · rw [heval]
    exact iff_of_false (by simp) fun h => h.1 hclash
  · rw [heval]
    exact iff_of_false (by simp) fun ⟨_, scripts, _, hscripts, _⟩ => hnone scripts hscripts
  · rw [heval, runAll_eq_error_iff, and_iff_right hclash]
    constructor
    · rintro ⟨name, hname, rfl⟩
      exact ⟨scripts, name, hscripts, hname, rfl⟩
    · rintro ⟨scripts', name, hscripts', hname, rfl⟩
      obtain rfl := hscripts.unique hscripts'
      exact ⟨name, hname, rfl⟩

/-- A request is guarded against shared names - it has a result, and the result only reports shared
names exactly if two units share one - unless units share names only at one path each. -/
theorem guarded_iff (r : Request) :
    ((∃ e, (evaluate r).outcome = .ok e) ∧
        (OnlyReportsDuplicates (evaluate r) ↔ ¬ (r.units.map (·.name)).Nodup)) ↔
      ((r.units.map (·.name)).Nodup ∨ Clash r.units) := by
  have hreports := onlyReportsDuplicates_iff r
  refine ⟨fun h => ?_, fun h => ⟨?_, ?_⟩⟩
  · by_cases hnames : (r.units.map (·.name)).Nodup
    · exact .inl hnames
    · exact .inr (hreports.1 (h.2.2 hnames))
  · cases hout : (evaluate r).outcome with
    | ok e => exact ⟨e, rfl⟩
    | error failure =>
      obtain ⟨hclash, scripts, name, hscripts, hrun, -⟩ := (evaluate_eq_error_iff r failure).1 hout
      -- Without a clash the names are distinct, so none is repeated.
      have hnames := h.resolve_right hclash
      rw [← hscripts.map_name, ← map_name_shareByName] at hnames
      exact absurd hnames hrun.not_nodup
  · rw [hreports]
    rcases h with hnames | hclash
    · exact iff_of_false (not_clash_of_nodup hnames) (not_not.2 hnames)
    · exact iff_of_true hclash fun hnames => not_clash_of_nodup hnames hclash

/-- Nothing is printed where shared names are reported, so that does not depend on the stream. -/
theorem onlyReportsDuplicates_evaluateTo_iff (stream : OutputStream) (r : Request) :
    OnlyReportsDuplicates (evaluateTo stream r) ↔ Clash r.units := by
  rcases stream.carry_cases (evaluate r) with
    ⟨-, hcarry⟩ | ⟨before, line, rest, failure, hevents, -, -, hcarry⟩
  · rw [evaluateTo, hcarry, onlyReportsDuplicates_iff]
  · rw [evaluateTo, hcarry, ← onlyReportsDuplicates_iff]
    refine iff_of_false ?_ ?_
    · rintro ⟨ds, -, -, hds⟩
      simp at hds
    · rintro ⟨ds, -, -, hds⟩
      simp [hds] at hevents

/-- A request is guarded against shared names on a stream - it has a result, and the result only
reports shared names exactly if two units share one - if the stream takes what is printed, unless
units share names only at one path each. Then nothing is reported, and there is no result if the run
gets to a repeated name. There is none either if the stream does not take a line before that. -/
theorem duplicates_reported_iff (stream : OutputStream) (r : Request) :
    (((∃ e, (evaluateTo stream r).outcome = .ok e) ∧
        (OnlyReportsDuplicates (evaluateTo stream r) ↔ ¬ (r.units.map (·.name)).Nodup)) ↔
      ((r.units.map (·.name)).Nodup ∨ Clash r.units) ∧
        ∀ line ∈ printedLines (evaluate r).events, stream.Takes line) ∧
    (OnlyReportsDuplicates (evaluateTo stream r) ↔ Clash r.units) ∧
    ∀ failure, (evaluateTo stream r).outcome = .error failure ↔
      stream.Refuses (printedLines (evaluate r).events) failure ∨
        (∀ line ∈ printedLines (evaluate r).events, stream.Takes line) ∧ ¬ Clash r.units ∧
          ∃ scripts name, AreScripts r.units scripts ∧
            RunsToRepetition r (shareByName scripts) name ∧ failure = repetitionFailure name := by
  refine ⟨?_, onlyReportsDuplicates_evaluateTo_iff stream r, fun failure => ?_⟩
  · rw [← guarded_iff, onlyReportsDuplicates_evaluateTo_iff, onlyReportsDuplicates_iff]
    simp only [evaluateTo, OutputStream.outcome_carry_eq_ok_iff, exists_and_right, and_right_comm]
  · rw [evaluateTo, OutputStream.outcome_carry_eq_error_iff, evaluate_eq_error_iff]

/-- A root script that is one of its own imports. -/
def twice : Request where
  root := ⟨.ofString "/w/scripts/a.custom.kts", "A", "1\n"⟩
  imports := [⟨.ofString "/w/scripts/a.custom.kts", "A", "1\n"⟩]
  dependencies := .ofList [("A", [])]

end

attribute [local instance] CharacterNames.none

/-- Two units share a name here, but nothing is reported, and the evaluation has no result on any
stream. -/
theorem duplicates_of_twice : ¬ (twice.units.map (·.name)).Nodup ∧
    ∀ stream, (evaluateTo stream twice).outcome =
        .error (.other "RuntimeError" "Unit evaluated twice: A") ∧
      ¬ OnlyReportsDuplicates (evaluateTo stream twice) := by
  have hnames : ¬ (twice.units.map (·.name)).Nodup := by decide
  have hclash : ¬ Clash twice.units := by decide
  have hfailure : (evaluate twice).outcome =
      .error (.other "RuntimeError" "Unit evaluated twice: A") :=
    eq_error_of_map (by decide +kernel)
  have hprinted : printedLines (evaluate twice).events = [] := by decide +kernel
  refine ⟨hnames, fun stream => ⟨?_, ?_⟩⟩
  · rw [evaluateTo, OutputStream.outcome_carry_eq_error_iff, hprinted]
    exact .inr ⟨by simp, hfailure⟩
  · rwa [onlyReportsDuplicates_evaluateTo_iff]

end Interpreter

end ScriptRunner
