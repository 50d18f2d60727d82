import ScriptRunner.Proofs.ImportGraph.EvaluationOrder
import ScriptRunner.Proofs.Interpreter.Messages

/-!
# Units that are read before they are initialized

A name with its unit in front may mean any unit of a request, imported or not. So a script can read
a unit that has not run even if there are no import cycles: one that comes later in the order of
evaluation. Such reads, and no others, are reported as reads of a unit that is not initialized.

## Main definitions

* `Consults` - the evaluation of an expression gets as far as a name with a unit in front.
* `ReadsAhead` - a script reads a unit that comes after it and that it does not lead to.

## Main statements

* `saysUninitialized_iff_readsAhead` - which requests without cycles report such a read.
-/

namespace ScriptRunner.Interpreter

open Script

/-- The evaluation of an expression gets as far as a name with a given unit in front. -/
inductive Consults (env : Environment) (unit : String) : Expr Value → String → Prop
  | member {owner n : String} {span : Span} : Consults env unit (.member owner n span) owner
  | operand {e : Expr Value} {span : Span} {owner : String} (h : Consults env unit e owner) :
      Consults env unit (.negate e span) owner
  | left {op : Operator} {l r : Expr Value} {span : Span} {owner : String}
      (h : Consults env unit l owner) : Consults env unit (.binary op l r span) owner
  | right {op : Operator} {l r : Expr Value} {span : Span} {v : Value} {owner : String}
      (hl : eval env unit l = .ok v) (h : Consults env unit r owner) :
      Consults env unit (.binary op l r span) owner

section Reads

variable {env : Environment} {unit owner : String} {e : Expr Value}

/-- The evaluation breaks off at the name if its unit is known but has not been entered. -/
theorem Consults.exists_failsAt (h : Consults env unit e owner)
    (hnew : owner ∉ env.namespaces.keys) (hknown : owner ∈ env.dependencies.keys) :
    ∃ span, FailsAt env unit e (.ofReference span (.notInitialized owner)) := by
  induction h with
  | @member owner n span =>
    have hfault : env.member owner n = .error (.notInitialized owner) :=
      Environment.member_eq_error_iff.2 (.inl ⟨hnew, hknown, rfl⟩)
    exact ⟨span, .member hfault⟩
  | operand _ ih =>
    obtain ⟨span, h⟩ := ih hnew hknown
    exact ⟨span, .operand h⟩
  | left _ ih =>
    obtain ⟨span, h⟩ := ih hnew hknown
    exact ⟨span, .left h⟩
  | right hl _ ih =>
    obtain ⟨span, h⟩ := ih hnew hknown
    exact ⟨span, .right hl h⟩

theorem FailsAt.consults {stop : Stop} (h : FailsAt env unit e stop) {span : Span}
    (hstop : stop = .fault (.reference (.notInitialized owner)) span) :
    Consults env unit e owner ∧ owner ∉ env.namespaces.keys ∧ owner ∈ env.dependencies.keys := by
  induction h with
  | name h =>
    rcases Environment.lookup_eq_error_iff.1 h with ⟨-, rfl⟩ | ⟨_, -, -, -, rfl⟩
    · simp [Stop.ofLookup] at hstop
    · simp [Stop.ofLookup, Stop.ofReference] at hstop
  | member h =>
    obtain ⟨hfault, -⟩ := Stop.fault.inj hstop
    obtain rfl := Fault.reference.inj hfault
    rcases Environment.member_eq_error_iff.1 h with
      ⟨hnew, hknown, heq⟩ | ⟨-, -, heq⟩ | ⟨_, -, -, heq⟩
    · obtain rfl := ReferenceFault.notInitialized.inj heq
      exact ⟨.member, hnew, hknown⟩
    · simp at heq
    · simp at heq
  | operand _ ih => exact (ih hstop).imp_left .operand
  | left _ ih => exact (ih hstop).imp_left .left
  | right hl _ ih => exact (ih hstop).imp_left (.right hl)
  | negate | apply => simp [Stop.ofOperator] at hstop

end Reads

section

variable [CharacterNames]

/-- A script gets to a statement that reads a unit by its name, and the unit comes after the script
in the order of evaluation, without being one of its direct or indirect imports. -/
def ReadsAhead (g : ImportGraph) (r : Request) : Prop :=
  ∃ before u after st q v, ArrivesAt r before u after st q ∧ v ∈ after ∧
    ¬ g.Reaches u.1.path v.1.path ∧ Consults q.1.environment u.1.name st.body v.1.name

section Requests

variable {g : ImportGraph} {r : Request}

/-- A script that reads ahead stops the whole run there. -/
theorem ReadsAhead.exists_stop (h : ReadsAhead g r) (hnames : (r.units.map (·.name)).Nodup)
    (hknown : r.dependencies.keys = r.units.map (·.name)) :
    ∃ scripts owner span, AreScripts r.units scripts ∧
      performAll (startState r scripts, none) (scripts.flatMap tasksOf) =
        .error (.ofReference span (.notInitialized owner)) := by
  obtain ⟨before, u, after, st, q, v, harrives, hv, -, hreads⟩ := h
  have hmap := harrives.scripts.map_name
  have hnew : v.1.name ∉ q.1.environment.namespaces.keys := by
    rw [← hmap, List.append_cons, List.map_append, List.map_append] at hnames
    rw [harrives.keys_namespaces]
    exact fun hmem => (List.nodup_append.1 hnames).2.2 _ hmem _ (List.mem_map_of_mem hv) rfl
  have hdependency : v.1.name ∈ q.1.environment.dependencies.keys := by
    rw [harrives.dependencies_eq, hknown, ← hmap]
    exact List.mem_map_of_mem (List.mem_append_right _ (List.mem_cons_of_mem _ hv))
  obtain ⟨span, hfails⟩ := hreads.exists_failsAt hnew hdependency
  exact ⟨_, _, span, harrives.scripts, harrives.performAll_eq_error (perform_of_failsAt hfails)⟩

/-- Without import cycles, a unit that is read before it is initialized is one that its reader does
not lead to. -/
theorem readsAhead_of_interruption (horder : InDependencyOrder g r.units) (hacyclic : g.Acyclic)
    (hnames : (r.units.map (·.name)).Nodup) (hknown : r.dependencies.keys = r.units.map (·.name))
    {scripts : List ParsedUnit} (hscripts : AreScripts r.units scripts)
    (i : Interruption (startState r scripts, none) scripts) {owner : String} {span : Span}
    (hstop : i.halt.stop = .fault (.reference (.notInitialized owner)) span) : ReadsAhead g r := by
  have hscriptNames : (scripts.map (·.1.name)).Nodup := by rwa [hscripts.map_name]
  obtain ⟨st, fault, span', harrives, hfault, hfails⟩ := i.exists_arrivesAt hscripts hscriptNames
  obtain ⟨rfl, rfl⟩ := Stop.fault.inj (hfault.symm.trans hstop)
  obtain ⟨hreads, hnew, hdependency⟩ := (hfails.resolve_right (by simp)).consults rfl
  rw [harrives.keys_namespaces] at hnew
  rw [harrives.dependencies_eq, hknown, ← harrives.scripts.map_name, List.append_cons,
    List.map_append, List.map_append, List.mem_append] at hdependency
  obtain ⟨v, hv, rfl⟩ := List.mem_map.1 (hdependency.resolve_left hnew)
  refine ⟨_, _, _, st, _, v, harrives, hv, fun hleads => ?_, hreads⟩
  -- What the reader leads to stands before it.
  have hpaths := harrives.scripts.map_path_eq_append
  have hreader : i.unit.1.path ∈ (i.before ++ [i.unit]).map (·.1.path) :=
    List.mem_map_of_mem (List.mem_append_right _ List.mem_cons_self)
  have hmem := horder.mem_of_reaches hacyclic hpaths hreader hleads
  have hnodup := horder.nodup_paths
  rw [hpaths] at hnodup
  exact (List.nodup_append.1 hnodup).2.2 _ hmem _ (List.mem_map_of_mem hv) rfl

/-- The names in a statement of a script are written as names. -/
theorem ArrivesAt.names_body {before after : List ParsedUnit} {u : ParsedUnit}
    {st : Statement Value} {q : Progress} (h : ArrivesAt r before u after st q) :
    st.body.Names WrittenAsName := by
  obtain ⟨init, rest, hstatements, -⟩ := h.performed
  have hparse := h.scripts.parse_eq (List.mem_append_right before List.mem_cons_self)
  have hst : st ∈ u.2.statements := by
    rw [hstatements]
    exact List.mem_append_right init List.mem_cons_self
  exact (names_of_parse hparse st hst).body

/-- A unit that breaks off reports that a unit is not initialized if that is its fault. -/
theorem saysUninitialized_iff_of_interruption {scripts : List ParsedUnit}
    (hscripts : AreScripts r.units scripts) (hnames : (scripts.map (·.1.name)).Nodup)
    (i : Interruption (startState r scripts, none) scripts) {fault : Fault} {span : Span}
    (hstop : i.halt.stop = .fault fault span) :
    (∃ d ∈ (i.halt.reached.1.report (Interruption.report i.unit fault span)).diagnostics,
      d.SaysUninitialized) ↔ ∃ owner, fault = .reference (.notInitialized owner) := by
  obtain ⟨st, fault', span', harrives, hfault, hfails⟩ := i.exists_arrivesAt hscripts hnames
  obtain ⟨rfl, rfl⟩ := Stop.fault.inj (hfault.symm.trans hstop)
  have hwritten : fault'.Names WrittenAsName := by
    rcases hfails with hfails | rfl
    · exact hfails.names harrives.names_body rfl
    · trivial
  have hbefore : ∀ d ∈ i.halt.reached.1.diagnostics, ¬ d.SaysUninitialized :=
    not_saysUninitialized_of_performAll ((performAll_append_of_ok i.performed _).trans
      i.halt.performed)
  rw [← saysUninitialized_report_iff hwritten]
  constructor
  · rintro ⟨d, hd, hform⟩
    rcases List.mem_append.1 hd with hd | hd
    · exact absurd hform (hbefore d hd)
    · rwa [← List.mem_singleton.1 hd]
  · intro hform
    exact ⟨_, List.mem_append_right _ List.mem_cons_self, hform⟩

/-- Without import cycles, an evaluation reports that a unit is not initialized exactly if a script
reads ahead. -/
theorem saysUninitialized_iff_readsAhead (hbuilt : g.Built) (hfrozen : g.frozen = true)
    (hacyclic : g.Acyclic) (hr : Request.ofGraph g = .ok r) :
    ∃ e, (evaluate r).outcome = .ok e ∧
      ((∀ d ∈ e.diagnostics, ¬ d.SaysUninitialized) ↔ ¬ ReadsAhead g r) := by
  have hg := hbuilt.consistent
  obtain ⟨left, r', hr', hfollows⟩ | ⟨missing, -, -, herror⟩ := Request.ofGraph_cases hfrozen
  swap
  · simp [hr] at herror
  obtain rfl := Except.ok.inj (hr.symm.trans hr')
  have horder := hfollows.inDependencyOrder hg
  have hnames := horder.nodup_names hg
  have hknown := hfollows.keys_dependencies hg
  rcases evaluate_cases hnames with ⟨hnone, heval⟩ | ⟨scripts, hscripts, hrun⟩
  · -- Nothing runs: there are reports of texts that are no scripts, and no reads.
    rw [heval]
    refine ⟨_, rfl, iff_of_true (fun d hd => ?_) fun hahead => ?_⟩
    · obtain ⟨u, -, hu⟩ := List.mem_filterMap.1 hd
      exact not_saysUninitialized_parseReport hu
    · obtain ⟨scripts, -, -, hscripts, -⟩ := hahead.exists_stop hnames hknown
      exact hnone scripts hscripts
  · rcases hrun with ⟨q, hq, heval⟩ | ⟨i, fault, span, hstop, heval⟩
    · -- All units run to their end, which a read ahead would prevent.
      rw [heval]
      refine ⟨_, rfl, iff_of_true (not_saysUninitialized_of_performAll hq) fun hahead => ?_⟩
      obtain ⟨scripts', _, _, hscripts', herror⟩ := hahead.exists_stop hnames hknown
      obtain rfl := hscripts.unique hscripts'
      simp [hq] at herror
    · -- A unit breaks off, and its fault decides.
      rw [heval]
      refine ⟨_, rfl, ?_⟩
      have hscriptNames : (scripts.map (·.1.name)).Nodup := by rwa [hscripts.map_name]
      have hform := saysUninitialized_iff_of_interruption hscripts hscriptNames i hstop
      refine Iff.trans ?_ (not_congr (hform.trans ⟨?_, fun hahead => ?_⟩))
      · simp
      · rintro ⟨owner, rfl⟩
        exact readsAhead_of_interruption horder hacyclic hnames hknown hscripts i hstop
      · obtain ⟨scripts', owner, span', hscripts', herror⟩ := hahead.exists_stop hnames hknown
        obtain rfl := hscripts.unique hscripts'
        have heq := Except.error.inj (i.performAll_eq_error.symm.trans herror)
        exact ⟨owner, (Stop.fault.inj (hstop.symm.trans heq)).1⟩

end Requests

end

/-- A root that imports two scripts, the first of which reads the second. -/
def siblings : ImportGraph :=
  List.foldl ImportGraph.attempt (.empty (.ofString "/scripts/main"))
    [.add ⟨.ofString "/scripts/main", "Main", "@file:Import(\"a\")\n@file:Import(\"b\")\n", [],
        [.ofString "/scripts/a", .ofString "/scripts/b"]⟩,
      .add ⟨.ofString "/scripts/a", "A", "println(B.x)\n", [], []⟩,
      .add ⟨.ofString "/scripts/b", "B", "val x = 1\n", [], []⟩, .freeze]

theorem acyclic_siblings : siblings.Acyclic :=
  ImportGraph.acyclic_of_rank (fun p => if p = .ofString "/scripts/main" then 1 else 0)
    (by decide +kernel)

attribute [local instance] CharacterNames.none

theorem evaluate_siblings : ∃ r e, Request.ofGraph siblings = .ok r ∧
    (evaluate r).outcome = .ok e ∧
      e.diagnostics.map (·.message) = ["A: Script 'B' is not initialized yet"] := by
  have hmessages : ((Request.ofGraph siblings).toOption.bind fun r =>
      (evaluate r).outcome.toOption).map (·.diagnostics.map (·.message)) =
      some ["A: Script 'B' is not initialized yet"] := by decide +kernel
  obtain ⟨e, hbind, hdiagnostics⟩ := Option.map_eq_some_iff.1 hmessages
  obtain ⟨r, hr, he⟩ := Option.bind_eq_some_iff.1 hbind
  exact ⟨r, e, toOption_eq_some_iff.1 hr, toOption_eq_some_iff.1 he, hdiagnostics⟩

theorem readsAhead_siblings : siblings.Built ∧ siblings.frozen = true ∧ siblings.Acyclic ∧
    ∃ r, Request.ofGraph siblings = .ok r ∧ ∃ e, (evaluate r).outcome = .ok e ∧
      ((∀ d ∈ e.diagnostics, ¬ d.SaysUninitialized) ↔ ¬ ReadsAhead siblings r) := by
  have hbuilt : siblings.Built := ⟨_, _, rfl⟩
  have hfrozen : siblings.frozen = true := by decide +kernel
  obtain ⟨r, -, hr, -⟩ := evaluate_siblings
  exact ⟨hbuilt, hfrozen, acyclic_siblings, r, hr,
    saysUninitialized_iff_readsAhead hbuilt hfrozen acyclic_siblings hr⟩

/-- There is no import cycle here, but a unit is reported as not initialized. -/
theorem saysUninitialized_siblings : siblings.Built ∧ siblings.frozen = true ∧ siblings.Acyclic ∧
    ∃ r, Request.ofGraph siblings = .ok r ∧ ∃ e, (evaluate r).outcome = .ok e ∧
      ∃ d ∈ e.diagnostics, d.SaysUninitialized := by
  obtain ⟨r, e, hr, he, hmessages⟩ := evaluate_siblings
  refine ⟨⟨_, _, rfl⟩, by decide +kernel, acyclic_siblings, r, hr, e, he, ?_⟩
  have hmem : "A: Script 'B' is not initialized yet" ∈ e.diagnostics.map (·.message) := by
    rw [hmessages]
    exact List.mem_cons_self
  obtain ⟨d, hd, hmessage⟩ := List.mem_map.1 hmem
  exact ⟨d, hd, "A", "B", by rw [hmessage]; rfl⟩

end ScriptRunner.Interpreter
