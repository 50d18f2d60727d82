import Mathlib.Data.List.Induction
import ScriptRunner.Proofs.Interpreter.Moments

/-!
# The meaning of bare names

Without import cycles the imports of a unit are complete when the unit starts: they have run to
their end, and nothing changes their namespaces any more. So a bare name, which is looked up in the
namespaces of the moment, means what the scripts say: the last binding that the unit has made, or
else the binding in the first of its direct imports that makes one.

## Main definitions

* `LastBound` - the last binding of a name among the statements that a unit has executed.
* `Evaluates` - the evaluation of an expression gets to one of its parts.
* `OnCompleteImports` - a unit runs on imports that are complete.

## Main statements

* `exists_lastBound_iff` - the namespace of a unit holds the last bindings.
* `imports_complete` - every unit that starts runs on imports that are complete.
-/

namespace ScriptRunner

/-- The binding of a name at the end of an evaluation, in the first unit of a list that has one. -/
def Evaluation.firstBinding (e : Evaluation) (name : String) (units : List String) : Option Value :=
  units.findSome? fun unit => (e.namespaces.find? unit).bind (·.find? name)

namespace Interpreter

open Script

/-- A statement binds a name. -/
def Binds (name : String) (st : Statement Value) : Prop :=
  ∃ e span, st = .val name e span

/-- Among the statements that a unit has executed from its start on, the last one that binds a name
has bound it to a value. -/
def LastBound (p : Progress) (u : ParsedUnit) (sts : List (Statement Value)) (name : String)
    (v : Value) : Prop :=
  ∃ init e span others q, sts = init ++ .val name e span :: others ∧
    (∀ st ∈ others, ¬ Binds name st) ∧
    performAll p (.start u :: init.map (.statement u)) = .ok q ∧
    eval q.1.environment u.1.name e = .ok v

section Bindings

variable {p q : Progress} {u : ParsedUnit} {sts : List (Statement Value)} {st : Statement Value}
  {name : String} {v : Value}

theorem lastBound_concat_of_not_binds (h : ¬ Binds name st) :
    LastBound p u (sts ++ [st]) name v ↔ LastBound p u sts name v := by
  constructor
  · rintro ⟨init, e, span, others, q, heq, hothers, hq, hv⟩
    rcases List.eq_nil_or_concat others with rfl | ⟨others, last, rfl⟩
    · obtain ⟨-, hst⟩ := List.append_inj' heq rfl
      exact absurd ⟨e, span, List.singleton_inj.1 hst⟩ h
    · rw [List.concat_eq_append, ← List.cons_append, ← List.append_assoc] at heq
      obtain ⟨rfl, -⟩ := List.append_inj' heq rfl
      exact ⟨init, e, span, others, q, rfl, fun st hst => hothers st (by simp [hst]), hq, hv⟩
  · rintro ⟨init, e, span, others, q, rfl, hothers, hq, hv⟩
    refine ⟨init, e, span, others ++ [st], q, by simp, fun st' hst' => ?_, hq, hv⟩
    rcases List.mem_append.1 hst' with hst' | hst'
    · exact hothers st' hst'
    · rwa [List.mem_singleton.1 hst']

theorem lastBound_concat_val {e : Expr Value} {span : Span}
    (hq : performAll p (.start u :: sts.map (.statement u)) = .ok q) :
    LastBound p u (sts ++ [.val name e span]) name v ↔
      eval q.1.environment u.1.name e = .ok v := by
  constructor
  · rintro ⟨init, e', span', others, q', heq, hothers, hq', hv⟩
    rcases List.eq_nil_or_concat others with rfl | ⟨others, last, rfl⟩
    · obtain ⟨rfl, hst⟩ := List.append_inj' heq rfl
      obtain ⟨-, rfl, -⟩ := Statement.val.inj (List.singleton_inj.1 hst)
      obtain rfl := Except.ok.inj (hq.symm.trans hq')
      exact hv
    · rw [List.concat_eq_append, ← List.cons_append, ← List.append_assoc] at heq
      obtain ⟨-, hlast⟩ := List.append_inj' heq rfl
      exact absurd ⟨e, span, (List.singleton_inj.1 hlast).symm⟩ (hothers last (by simp))
  · exact fun hv => ⟨sts, e, span, [], q, rfl, by simp, hq, hv⟩

/-- The namespace of a unit holds for each name the last value that it has been bound to. -/
theorem exists_lastBound_iff (hq : performAll p (.start u :: sts.map (.statement u)) = .ok q) :
    ∃ own, q.1.environment.namespaces.find? u.1.name = some own ∧
      ∀ name v, own.find? name = some v ↔ LastBound p u sts name v := by
  induction sts using List.reverseRecOn generalizing q with
  | nil =>
    obtain ⟨p', hstart, hnil⟩ := performAll_cons_eq_ok.1 hq
    obtain rfl := Except.ok.inj hnil
    obtain ⟨-, rfl⟩ := perform_start_eq_ok hstart
    refine ⟨.empty, Table.find?_insert_self _ _ _, fun name v => iff_of_false (by simp) ?_⟩
    rintro ⟨init, e, span, others, _, heq, -⟩
    simp at heq
  | append_singleton sts st ih =>
    rw [List.map_append, ← List.cons_append] at hq
    obtain ⟨q', hq', hlast⟩ := performAll_append_eq_ok.1 hq
    obtain ⟨q'', hst, hnil⟩ := performAll_cons_eq_ok.1 hlast
    obtain rfl := Except.ok.inj hnil
    obtain ⟨own, hown, hbound⟩ := ih hq'
    cases st with
    | val n e span =>
      obtain ⟨w, own', hw, hown', henv, -⟩ := perform_val_eq_ok hst
      obtain rfl := Option.some.inj (hown.symm.trans hown')
      refine ⟨own.insert n w, by rw [henv]; exact Table.find?_insert_self _ _ _, fun name v => ?_⟩
      rw [Table.find?_insert]
      by_cases hn : n = name
      · subst hn
        rw [if_pos rfl, lastBound_concat_val hq', hw]
        simp
      · have hother : ¬ Binds name (.val n e span) := by
          rintro ⟨e', span', heq⟩
          exact hn (Statement.val.inj heq).1
        rw [if_neg hn, hbound, lastBound_concat_of_not_binds hother]
    | print e span =>
      obtain ⟨w, line, -, -, rfl⟩ := perform_print_eq_ok hst
      refine ⟨own, hown, fun name v => ?_⟩
      rw [hbound, lastBound_concat_of_not_binds]
      rintro ⟨e', span', heq⟩
      simp at heq
    | expression e span =>
      obtain ⟨w, -, rfl⟩ := perform_expression_eq_ok.1 hst
      refine ⟨own, hown, fun name v => ?_⟩
      rw [hbound, lastBound_concat_of_not_binds]
      rintro ⟨e', span', heq⟩
      simp at heq

end Bindings

/-- The evaluation of an expression gets to one of its parts: the operands before it have values. -/
inductive Evaluates (env : Environment) (unit : String) : Expr Value → (part : Expr Value) → Prop
  | whole (e : Expr Value) : Evaluates env unit e e
  | operand {e part : Expr Value} {span : Span} (h : Evaluates env unit e part) :
      Evaluates env unit (.negate e span) part
  | left {op : Operator} {l r part : Expr Value} {span : Span} (h : Evaluates env unit l part) :
      Evaluates env unit (.binary op l r span) part
  | right {op : Operator} {l r part : Expr Value} {span : Span} {v : Value}
      (hl : eval env unit l = .ok v) (h : Evaluates env unit r part) :
      Evaluates env unit (.binary op l r span) part

/-- A part that fails makes the whole expression fail. -/
theorem Evaluates.failsAt {env : Environment} {unit : String} {e part : Expr Value}
    (h : Evaluates env unit e part) {stop : Stop} (hpart : FailsAt env unit part stop) :
    FailsAt env unit e stop := by
  induction h with
  | whole e => exact hpart
  | operand _ ih => exact .operand (ih hpart)
  | left _ ih => exact .left (ih hpart)
  | right hl _ ih => exact .right hl (ih hpart)

/-- A unit that starts runs on imports that are complete. The units that it imports have executed
all their statements, and their namespaces are those at the end. So a bare name in the unit has a
fixed meaning: the last value that the unit itself has bound it to, or else the value at the end in
the first import that has one. A name without a meaning ends the evaluation. -/
structure OnCompleteImports (e : Evaluation) (before : List ParsedUnit) (u : ParsedUnit)
    (after : List ParsedUnit) (p : Progress) (imports : List String) : Prop where
  executed : ∀ d ∈ imports, ∃ v ∈ before, v.1.name = d
  settled : ∀ d ∈ imports, Settled p ((u :: after).flatMap tasksOf) d ∧
    e.namespaces.find? d = p.1.environment.namespaces.find? d
  meaning : ∀ init st q name span v, GetsTo p u init st q →
    (eval q.1.environment u.1.name (.name name span) = .ok v ↔
      LastBound p u init name v ∨
        (∀ w, ¬ LastBound p u init name w) ∧ e.firstBinding name imports = some v)
  unresolved : ∀ init st q name span, GetsTo p u init st q →
    Evaluates q.1.environment u.1.name st.body (.name name span) →
    (∀ w, ¬ LastBound p u init name w) → e.firstBinding name imports = none →
    e.namespaces = q.1.environment.namespaces ∧ e.output = q.1.output ∧
      e.diagnostics = q.1.diagnostics ++ [⟨.error,
        s!"{u.1.name}: " ++ s!"Unresolved reference: {name}", some (Location.ofSpan u.2.file span)⟩]

theorem firstBinding_congr {env : Environment} {e : Evaluation} {units : List String}
    (h : ∀ d ∈ units, env.namespaces.find? d = e.namespaces.find? d) (name : String) :
    env.firstBinding name units = e.firstBinding name units := by
  unfold Environment.firstBinding Evaluation.firstBinding
  induction units with
  | nil => rfl
  | cons d units ih =>
    obtain ⟨hd, hunits⟩ := List.forall_mem_cons.1 h
    simp only [List.findSome?_cons, hd, ih hunits]

/-- The tasks of a unit that gets to a statement are the first after its start. -/
theorem GetsTo.exists_tasks_eq {p q : Progress} {u : ParsedUnit} {init : List (Statement Value)}
    {st : Statement Value} (h : GetsTo p u init st q) (after : List ParsedUnit) :
    ∃ rest, (u :: after).flatMap tasksOf =
      (.start u :: init.map (.statement u)) ++ .statement u st :: rest := by
  obtain ⟨rest, hrest⟩ := h.statements
  exact ⟨rest.map (.statement u) ++ after.flatMap tasksOf, by simp [tasksOf, hrest]⟩

section Names

variable [CharacterNames] {r : Request} {before after : List ParsedUnit} {u : ParsedUnit}
  {p q : Progress} {e : Evaluation} {imports : List String} {init : List (Statement Value)}
  {st : Statement Value}

theorem Starts.find?_end (h : Starts r before u after p) (hnames : (r.units.map (·.name)).Nodup)
    (he : (evaluate r).outcome = .ok e) {d : String}
    (hd : Settled p ((u :: after).flatMap tasksOf) d) :
    e.namespaces.find? d = p.1.environment.namespaces.find? d := by
  obtain ⟨e', done, q, he', hends⟩ := exists_endsAt hnames h.scripts
  obtain rfl := Except.ok.inj (he.symm.trans he')
  have htasks : (before ++ u :: after).flatMap tasksOf =
      before.flatMap tasksOf ++ (u :: after).flatMap tasksOf := List.flatMap_append
  obtain ⟨later, rfl⟩ := hends.last _ _ ⟨_, htasks.symm⟩ h.performed
  obtain ⟨rest, hrest⟩ := hends.begins
  rw [htasks, List.append_assoc] at hrest
  have hperformed := hends.performed
  rw [performAll_append_of_ok h.performed] at hperformed
  rw [hends.namespaces]
  exact hd later rest q (List.append_cancel_left hrest).symm hperformed

/-- A name without a meaning is reported, and nothing happens after it. -/
theorem Starts.evaluation_of_unresolved (h : Starts r before u after p)
    (hnames : (r.units.map (·.name)).Nodup) (he : (evaluate r).outcome = .ok e)
    (hgets : GetsTo p u init st q) {name : String} {span : Span}
    (hfails : FailsAt q.1.environment u.1.name st.body
      (.ofReference span (.unresolved name))) :
    e.namespaces = q.1.environment.namespaces ∧ e.output = q.1.output ∧
      e.diagnostics = q.1.diagnostics ++ [⟨.error,
        s!"{u.1.name}: " ++ s!"Unresolved reference: {name}",
        some (Location.ofSpan u.2.file span)⟩] := by
  obtain ⟨rest, hstatements⟩ := hgets.statements
  have harrives : ArrivesAt r before u after st q :=
    ⟨h.scripts, init, rest, hstatements, (performAll_append_of_ok h.performed _).trans
      hgets.performed⟩
  obtain ⟨value, heval⟩ := harrives.exists_evaluate_of_stop hnames (perform_of_failsAt hfails)
  rw [heval] at he
  obtain rfl := Except.ok.inj he
  exact ⟨rfl, rfl, rfl⟩

/-- A unit whose imports stand before it runs on imports that are complete. -/
theorem Starts.onCompleteImports (h : Starts r before u after p)
    (hnames : (r.units.map (·.name)).Nodup) (he : (evaluate r).outcome = .ok e)
    (himports : r.dependencies.find? u.1.name = some imports)
    (hbefore : ∀ d ∈ imports, ∃ v ∈ before, v.1.name = d) :
    OnCompleteImports e before u after p imports := by
  have hsettled : ∀ d ∈ imports, Settled p ((u :: after).flatMap tasksOf) d := fun d hd => by
    obtain ⟨v, hv, rfl⟩ := hbefore d hd
    exact h.settled hnames hv
  have hend : ∀ d ∈ imports, e.namespaces.find? d = p.1.environment.namespaces.find? d :=
    fun d hd => h.find?_end hnames he (hsettled d hd)
  -- At every statement of the unit the imports hold what they hold at the end.
  have hfirst : ∀ {init st q}, GetsTo p u init st q → ∀ name,
      q.1.environment.firstBinding name (q.1.environment.importsOf u.1.name) =
        e.firstBinding name imports := fun {init st q} hgets name => by
    have hdependencies : q.1.environment.dependencies = r.dependencies :=
      (extends_performAll hgets.performed).dependencies.trans
        (extends_performAll h.performed).dependencies
    obtain ⟨rest, hrest⟩ := hgets.exists_tasks_eq after
    rw [Environment.importsOf, hdependencies, himports]
    refine firstBinding_congr (fun d hd => ?_) name
    rw [hend d hd]
    exact hsettled d hd _ _ q hrest hgets.performed
  refine ⟨hbefore, fun d hd => ⟨hsettled d hd, hend d hd⟩, ?_, ?_⟩
  · intro init st q name span v hgets
    obtain ⟨own, hown, hbound⟩ := exists_lastBound_iff hgets.performed
    have hnone : own.find? name = none ↔ ∀ w, ¬ LastBound p u init name w := by
      simp only [← hbound, Option.eq_none_iff_forall_ne_some, ne_eq]
    rw [eval, mapError_eq_ok, Environment.lookup_eq_ok_iff hown, hbound, hnone, hfirst hgets]
  · intro init st q name span hgets hevaluates hunbound hnone
    obtain ⟨own, hown, hbound⟩ := exists_lastBound_iff hgets.performed
    have hown' : own.find? name = none :=
      Option.eq_none_iff_forall_ne_some.2 fun w hw => hunbound w ((hbound name w).1 hw)
    have hlookup : q.1.environment.lookup u.1.name name = .error (.reference (.unresolved name)) :=
      Environment.lookup_eq_error_iff.2
        (.inr ⟨own, hown, hown', (hfirst hgets name).trans hnone, rfl⟩)
    exact h.evaluation_of_unresolved hnames he hgets (hevaluates.failsAt (.name hlookup))

end Names

section Graphs

variable [CharacterNames] {g : ImportGraph} {r : Request}

/-- Without cycles the script at an import of a unit stands before the unit. -/
theorem Starts.exists_before {before after : List ParsedUnit} {u : ParsedUnit} {p : Progress}
    (h : Starts r before u after p) (horder : InDependencyOrder g r.units) (hacyclic : g.Acyclic)
    {q : Path} (hq : g.Imports u.1.path q) {m : ScriptNode} (hm : g.node? q = some m) :
    ∃ v ∈ before, v.1.name = m.name := by
  have hpaths := h.scripts.map_path_eq_append
  have hu : u.1.path ∈ (before ++ [u]).map (·.1.path) :=
    List.mem_map_of_mem (List.mem_append_right _ List.mem_cons_self)
  have hreached : g.Reaches g.root u.1.path :=
    (horder.mem_paths_iff _).1 (hpaths ▸ List.mem_append_left _ hu)
  obtain ⟨v, hv, rfl⟩ := List.mem_map.1 (horder.mem_of_reaches hacyclic hpaths hu (.single hq))
  have hunit : v.1 ∈ r.units := by
    rw [← h.scripts.map_unit]
    refine List.mem_map_of_mem ?_
    rw [List.append_cons]
    exact List.mem_append_left _ hv
  obtain ⟨n, hn, hname⟩ := horder.exists_node? v.1 hunit
  obtain rfl := Option.some.inj (hm.symm.trans hn)
  rcases List.mem_append.1 hv with hv | hv
  · exact ⟨v, hv, congrArg ScriptUnit.name hname⟩
  · -- A script that imports itself is a cycle.
    obtain rfl := List.mem_singleton.1 hv
    exact absurd (.single hq) (hacyclic _ hreached)

/-- The request for a graph without cycles has a result, and the units that start in its evaluation
run on imports that are complete: on the scripts that their nodes import, in the same order. -/
theorem imports_complete (hbuilt : g.Built) (hfrozen : g.frozen = true) (hacyclic : g.Acyclic)
    (hr : Request.ofGraph g = .ok r) :
    ∃ e, (evaluate r).outcome = .ok e ∧
      (∀ name path, .started name path ∈ (evaluate r).events ↔
        ∃ before u after p, Starts r before u after p ∧ u.1.name = name ∧ u.1.path = path) ∧
      ∀ before u after p, Starts r before u after p → ∃ n imports,
        g.node? u.1.path = some n ∧ r.dependencies.find? u.1.name = some imports ∧
        List.Forall₂ (fun q d => ∃ m, g.node? q = some m ∧ m.name = d) n.resolvedImports imports ∧
        OnCompleteImports e before u after p imports := by
  have hg := hbuilt.consistent
  obtain ⟨left, r', hr', hfollows⟩ | ⟨missing, -, -, herror⟩ := Request.ofGraph_cases hfrozen
  swap
  · simp [hr] at herror
  obtain rfl := Except.ok.inj (hr.symm.trans hr')
  have horder := hfollows.inDependencyOrder hg
  have hnames := horder.nodup_names hg
  obtain ⟨e, he, -⟩ := exists_value_iff hnames
  refine ⟨e, he, started_mem_events_iff hnames, fun before u after p h => ?_⟩
  have hunit : u.1 ∈ r.units := by
    rw [← h.scripts.map_unit]
    exact List.mem_map_of_mem (List.mem_append_right _ List.mem_cons_self)
  obtain ⟨n, hn, hu⟩ := horder.exists_node? u.1 hunit
  have hleft : u.1.path ∈ left := (hfollows.mem_left_iff _).2
    ((horder.mem_paths_iff _).1 (List.mem_map_of_mem hunit))
  obtain ⟨imports, himports, hall⟩ := hfollows.find?_dependencies hg hleft hn
  have hname : n.name = u.1.name := by rw [hu]; rfl
  rw [hname] at himports
  refine ⟨n, imports, hn, himports, hall, h.onCompleteImports hnames he himports fun d hd => ?_⟩
  obtain ⟨q, hq, m, hm, rfl⟩ := exists_of_forall₂_right hall hd
  exact h.exists_before horder hacyclic ⟨n, hn, hq⟩ hm

end Graphs

/-- A root whose import imports a third script. The root reads the third script as well. -/
def layers : ImportGraph :=
  List.foldl ImportGraph.attempt (.empty (.ofString "/scripts/main"))
    [.add ⟨.ofString "/scripts/main", "Main", "val y = x\nprintln(y)\nz\n", [],
        [.ofString "/scripts/a"]⟩,
      .add ⟨.ofString "/scripts/a", "A", "val x = z\n", [], [.ofString "/scripts/b"]⟩,
      .add ⟨.ofString "/scripts/b", "B", "val z = 1\n", [], []⟩, .freeze]

attribute [local instance] CharacterNames.none

/-- The root starts, and it breaks off at the name that only the third script binds. -/
theorem imports_complete_layers : layers.Built ∧ layers.frozen = true ∧ layers.Acyclic ∧
    ∃ r e, Request.ofGraph layers = .ok r ∧ (evaluate r).outcome = .ok e ∧
      e.output = ["1"] ∧ e.diagnostics.map (·.message) = ["Main: Unresolved reference: z"] ∧
      ∃ before u after p, Starts r before u after p ∧ u.1.name = "Main" ∧
        OnCompleteImports e before u after p ["A"] := by
  have hbuilt : layers.Built := ⟨_, _, rfl⟩
  have hfrozen : layers.frozen = true := by decide +kernel
  have hacyclic : layers.Acyclic := ImportGraph.acyclic_of_rank
    (fun p =>
      if p = .ofString "/scripts/main" then 2 else if p = .ofString "/scripts/a" then 1 else 0)
    (by decide +kernel)
  have hrun : (Request.ofGraph layers).toOption.map (fun r =>
      (r.dependencies.find? "Main", (evaluate r).events.contains
        (.started "Main" (.ofString "/scripts/main")))) = some (some ["A"], true) := by
    decide +kernel
  have hend : ((Request.ofGraph layers).toOption.bind fun r => (evaluate r).outcome.toOption).map
      (fun e => (e.output, e.diagnostics.map (·.message))) =
      some ([("1" : ScriptText)], ["Main: Unresolved reference: z"]) := by decide +kernel
  obtain ⟨r, hr, hpair⟩ := Option.map_eq_some_iff.1 hrun
  obtain ⟨hdependencies, hstarted⟩ := Prod.mk.inj hpair
  have hr := toOption_eq_some_iff.1 hr
  obtain ⟨e, he, hstarts, hcomplete⟩ := imports_complete hbuilt hfrozen hacyclic hr
  simp only [hr, he, Except.toOption, Option.bind_some, Option.map_some, Option.some.injEq,
    Prod.mk.injEq] at hend
  obtain ⟨before, u, after, p, h, hname, -⟩ :=
    (hstarts "Main" (.ofString "/scripts/main")).1 (List.contains_iff_mem.1 hstarted)
  obtain ⟨n, imports, -, himports, -, hu⟩ := hcomplete before u after p h
  rw [hname, hdependencies] at himports
  obtain rfl := Option.some.inj himports
  exact ⟨hbuilt, hfrozen, hacyclic, r, e, hr, he, hend.1, hend.2, before, u, after, p, h, hname, hu⟩

end Interpreter

end ScriptRunner
