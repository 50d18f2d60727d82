import Mathlib.Data.List.Induction
import ScriptRunner.Proofs.Interpreter.Agreement
import ScriptRunner.Proofs.Interpreter.Diagnostics

/-!
# The order of independent units

Units that do not import each other may be evaluated in any order. Whenever a unit starts, its
imports have the namespaces that they have at the end of the evaluation, so it finds the same in
every order and does the same.

## Main definitions

* `Request.ImportsFirst`, `Request.RefersToImports` - every unit comes after its imports, and
  qualified names are about imports.
* `Reordered` - two requests with the same units, in orders in which imports come first.
* `Prints` - the lines that a unit prints in the evaluation of a request.

## Main statements

* `Does.of_ready` - a unit does the same wherever its imports have their last namespaces.
* `Behaves.step`, `Behaves.run` - so it does in every order, one unit after the other.
* `evaluate_reordered` - the order makes no difference but to the order of the lines.
-/

namespace ScriptRunner

namespace Request

/-- The names of the direct imports of a unit. -/
def importsOf (r : Request) (name : String) : List String :=
  (r.dependencies.find? name).getD []

/-- Every unit comes after its direct imports, itself aside. -/
def ImportsFirst (r : Request) : Prop :=
  r.units.Pairwise fun u v => v.name ∉ r.importsOf u.name

instance (r : Request) : Decidable r.ImportsFirst :=
  inferInstanceAs (Decidable (r.units.Pairwise _))

variable [CharacterNames]

/-- Every script uses as owner of a qualified name only its own name or that of a direct import. -/
def RefersToImports (r : Request) : Prop :=
  ∀ u ∈ r.units, ∀ p, Script.parse u.path.toString u.text = .ok p →
    ∀ owner ∈ p.owners, owner = u.name ∨ owner ∈ r.importsOf u.name

instance (r : Request) : Decidable r.RefersToImports :=
  decidable_of_iff (∀ u ∈ r.units, ∀ p ∈ (Script.parse u.path.toString u.text).toOption,
      ∀ owner ∈ p.owners, owner = u.name ∨ owner ∈ r.importsOf u.name) <| by
    simp only [RefersToImports, Option.mem_def, toOption_eq_some_iff]

end Request

namespace Interpreter

open Script

/-- A unit that has not started finds its imports, itself aside, with the namespaces that they have
in the environment at the end. -/
structure Ready (final : Environment) (u : ParsedUnit) (p : Progress) : Prop where
  dependencies : ∀ d, p.1.environment.dependencies.find? d = final.dependencies.find? d
  new : p.1.environment.namespaces.find? u.1.name = none
  imports : ∀ d ∈ final.importsOf u.1.name, d ≠ u.1.name →
    p.1.environment.namespaces.find? d = final.namespaces.find? d

/-- A unit that is ready runs to its end. It prints these lines, comes to this value, and has the
namespace that it has at the end. -/
structure Does (final : Environment) (u : ParsedUnit) (lines : List ScriptText)
    (value : Option Value) (p q : Progress) : Prop where
  performed : performAll p (tasksOf u) = .ok q
  own : q.1.environment.namespaces.find? u.1.name = final.namespaces.find? u.1.name
  output : q.1.output = p.1.output ++ lines
  value : q.2 = value

section Units

variable {final : Environment} {u : ParsedUnit} {p q : Progress}

/-- The names that a script may refer to: its own and those of its imports. -/
def InReach (env : Environment) (u : ParsedUnit) (d : String) : Prop :=
  d = u.1.name ∨ d ∈ env.importsOf u.1.name

theorem refersTo_tasksOf {env : Environment}
    (hdependencies : ∀ d, env.dependencies.find? d = final.dependencies.find? d)
    (howners : ∀ d ∈ u.2.owners, InReach final u d) :
    ∀ t ∈ tasksOf u, RefersTo env.dependencies (InReach final u) t := by
  refine refersTo_of_mem_tasksOf (.inl rfl) (fun d hd => .inr ?_) howners
  rwa [hdependencies] at hd

/-- Wherever a unit is ready it does the same. -/
theorem Does.of_ready {lines : List ScriptText} {value : Option Value}
    (h : Does final u lines value p q) (hp : Ready final u p) {p' : Progress}
    (hp' : Ready final u p') (howners : ∀ d ∈ u.2.owners, InReach final u d) :
    ∃ q', Does final u lines value p' q' := by
  have hagrees : AgreesOn (InReach final u) p.1.environment p'.1.environment := by
    refine ⟨fun d => (hp.dependencies d).trans (hp'.dependencies d).symm, fun d hd => ?_⟩
    by_cases hown : d = u.1.name
    · rw [hown, hp.new, hp'.new]
    · have himport := hd.resolve_left hown
      rw [hp.imports d himport hown, hp'.imports d himport hown]
  have halike := alike_unit hagrees (refersTo_tasksOf hp.dependencies howners)
  rw [h.performed] at halike
  generalize hq' : performAll p' (tasksOf u) = x at halike
  cases halike with
  | @ok _ q' lines' _ hagrees' hvalue houtput houtput' =>
    obtain rfl : lines = lines' := List.append_cancel_left (h.output.symm.trans houtput)
    exact ⟨q', hq', (hagrees'.namespaces _ (.inl rfl)).symm.trans h.own, houtput',
      hvalue.symm.trans h.value⟩

/-- A unit that has run has printed some lines. -/
theorem exists_lines (h : performAll p (tasksOf u) = .ok q) :
    ∃ lines, q.1.output = p.1.output ++ lines := by
  obtain ⟨⟨lines, hlines⟩, -⟩ := begins_performAll h
  exact ⟨lines, hlines.symm⟩

end Units

section Requests

variable [CharacterNames]

/-- Two requests with the same root, the same imports of each unit and the same units in two orders
in which imports come first. The names of the units are distinct, and qualified names are about
imports. -/
structure Reordered (r r' : Request) : Prop where
  root : r.root = r'.root
  imports : r.imports.Perm r'.imports
  dependencies : ∀ name, r.dependencies.find? name = r'.dependencies.find? name
  names : (r.units.map (·.name)).Nodup
  importsFirst : r.ImportsFirst
  importsFirst' : r'.ImportsFirst
  refersToImports : r.RefersToImports

variable {r r' : Request}

theorem Reordered.units (h : Reordered r r') : r.units.Perm r'.units := by
  rw [Request.units, Request.units, h.root]
  exact h.imports.append_right _

theorem Reordered.importsOf (h : Reordered r r') (name : String) :
    r.importsOf name = r'.importsOf name := by
  rw [Request.importsOf, Request.importsOf, h.dependencies]

theorem Reordered.symm (h : Reordered r r') : Reordered r' r where
  root := h.root.symm
  imports := h.imports.symm
  dependencies name := (h.dependencies name).symm
  names := (h.units.map _).nodup_iff.1 h.names
  importsFirst := h.importsFirst'
  importsFirst' := h.importsFirst
  refersToImports u hu p hp owner howner := by
    rw [← h.importsOf]
    exact h.refersToImports u (h.units.mem_iff.2 hu) p hp owner howner

/-- The scripts of a request are the units whose texts denote them. -/
theorem AreScripts.mem_iff {units : List ScriptUnit} {scripts : List ParsedUnit}
    (h : AreScripts units scripts) (u : ParsedUnit) :
    u ∈ scripts ↔ u.1 ∈ units ∧ parse u.1.path.toString u.1.text = .ok u.2 := by
  constructor
  · intro hu
    exact ⟨h.map_unit ▸ List.mem_map_of_mem hu, h.parse_eq hu⟩
  · rintro ⟨hu, hp⟩
    rw [← h.map_unit] at hu
    obtain ⟨v, hv, heq⟩ := List.mem_map.1 hu
    have hv' := h.parse_eq hv
    rw [heq] at hv'
    rwa [Prod.ext heq.symm (Except.ok.inj (hp.symm.trans hv'))]

theorem AreScripts.eq_of_unit_eq {units : List ScriptUnit} {scripts : List ParsedUnit}
    (h : AreScripts units scripts) {u v : ParsedUnit} (hu : u ∈ scripts) (hv : v ∈ scripts)
    (heq : u.1 = v.1) : u = v := by
  have hparse := h.parse_eq hu
  rw [heq, h.parse_eq hv] at hparse
  exact Prod.ext heq (Except.ok.inj hparse.symm)

/-- Both requests are made of scripts, and of the same ones. -/
theorem Reordered.exists_areScripts (h : Reordered r r') {scripts : List ParsedUnit}
    (hscripts : AreScripts r.units scripts) :
    ∃ scripts', AreScripts r'.units scripts' ∧ ∀ u, u ∈ scripts' ↔ u ∈ scripts := by
  have hall : ∀ u ∈ r'.units, isScript u = true := fun u hu =>
    hscripts.isScript (h.units.mem_iff.2 hu)
  obtain ⟨scripts', hscripts'⟩ := Interpreter.exists_areScripts hall
  refine ⟨scripts', hscripts', fun u => ?_⟩
  rw [hscripts.mem_iff, hscripts'.mem_iff, h.units.mem_iff]

end Requests

theorem dependencies_of_performAll {r : Request} {p : Progress} {scripts : List ParsedUnit}
    {tasks : List Task} (h : performAll (startState r scripts, none) tasks = .ok p) :
    p.1.environment.dependencies = r.dependencies :=
  (extends_performAll h).dependencies

section Orders

variable [CharacterNames] {r r' : Request} {before after : List ParsedUnit} {u : ParsedUnit}
  {p q : Progress}

/-- A unit that is no import of another one before it. -/
theorem Starts.not_import (h : Starts r before u after p) (hfirst : r.ImportsFirst) {v : ParsedUnit}
    (hv : v ∈ after) : v.1.name ∉ r.importsOf u.1.name := by
  rw [Request.ImportsFirst, ← h.scripts.map_unit, List.map_append, List.map_cons] at hfirst
  exact (List.pairwise_cons.1 (List.pairwise_append.1 hfirst).2.1).1 v.1 (List.mem_map_of_mem hv)

/-- In a run to the end, every unit is ready when it starts. -/
theorem Starts.ready_of_end (h : Starts r before u after p) (hnames : (r.units.map (·.name)).Nodup)
    (hfirst : r.ImportsFirst) {last : Progress}
    (hlast : performAll p ((u :: after).flatMap tasksOf) = .ok last) :
    Ready last.1.environment u p := by
  have hdependencies := dependencies_of_performAll h.performed
  have hdependencies' : last.1.environment.dependencies = r.dependencies :=
    (extends_performAll hlast).dependencies.trans hdependencies
  refine ⟨fun d => by rw [hdependencies, hdependencies'],
    (Table.find?_eq_none_iff _ _).2 (h.new hnames), fun d hd hown => ?_⟩
  rw [Environment.importsOf, hdependencies'] at hd
  -- No unit from here on has the name of an import.
  refine (find?_performAll hlast fun t ht heq => ?_).symm
  rcases List.mem_cons.1 (unit_mem_of_mem_tasks ht) with hunit | hlater
  · exact hown (heq ▸ congrArg (·.1.name) hunit)
  · exact h.not_import hfirst hlater (heq ▸ hd)

/-- In a run to the end, every unit has the namespace at its end that it has at the end of all. -/
theorem Starts.exists_does (h : Starts r before u after p) (hnames : (r.units.map (·.name)).Nodup)
    {last : Progress} (hlast : performAll p ((u :: after).flatMap tasksOf) = .ok last) :
    ∃ lines value q, Does last.1.environment u lines value p q := by
  rw [List.flatMap_cons] at hlast
  obtain ⟨q, hq, hafter⟩ := performAll_append_eq_ok.1 hlast
  obtain ⟨lines, hlines⟩ := exists_lines hq
  refine ⟨lines, q.2, q, hq, (find?_performAll hafter fun t ht heq => ?_).symm, hlines, rfl⟩
  rw [← h.scripts.map_name, List.map_append, List.map_cons] at hnames
  have hnew := (List.nodup_cons.1 (List.nodup_append.1 hnames).2.1).1
  exact hnew (heq ▸ List.mem_map_of_mem (unit_mem_of_mem_tasks ht))

/-- A unit is ready if the units before it have the namespaces that they have at the end, and other
names have none. -/
theorem Starts.ready_of_before (h : Starts r before u after p)
    (hnames : (r.units.map (·.name)).Nodup) (hfirst : r.ImportsFirst) {final : Environment}
    (hdependencies : ∀ d, final.dependencies.find? d = r.dependencies.find? d)
    (hfinal : ∀ d, d ∉ r.units.map (·.name) → final.namespaces.find? d = none)
    (hbefore : ∀ v ∈ before, p.1.environment.namespaces.find? v.1.name =
      final.namespaces.find? v.1.name) : Ready final u p := by
  refine ⟨fun d => by rw [dependencies_of_performAll h.performed, hdependencies],
    (Table.find?_eq_none_iff _ _).2 (h.new hnames), fun d hd hown => ?_⟩
  by_cases hmem : d ∈ before.map (·.1.name)
  · obtain ⟨v, hv, rfl⟩ := List.mem_map.1 hmem
    exact hbefore v hv
  · -- The import is no unit at all.
    have hother : d ∉ r.units.map (·.name) := by
      rw [← h.scripts.map_name, List.map_append, List.map_cons, List.mem_append, List.mem_cons]
      rintro (hbefore | rfl | hafter)
      · exact hmem hbefore
      · exact hown rfl
      · obtain ⟨v, hv, rfl⟩ := List.mem_map.1 hafter
        rw [Environment.importsOf, hdependencies] at hd
        exact h.not_import hfirst hv hd
    rw [hfinal d hother, (Table.find?_eq_none_iff _ _).2 (by rwa [h.keys_namespaces])]

end Orders

/-- What every unit of a request does when it is ready, with the namespaces at the end: the lines
that it prints and the value that it comes to. -/
structure Behaves (r : Request) (scripts : List ParsedUnit) (final : Environment)
    (does : ScriptUnit → List ScriptText × Option Value) : Prop where
  dependencies : ∀ d, final.dependencies.find? d = r.dependencies.find? d
  others : ∀ d, d ∉ r.units.map (·.name) → final.namespaces.find? d = none
  owners : ∀ u ∈ scripts, ∀ d ∈ u.2.owners, InReach final u d
  units : ∀ u ∈ scripts, ∃ p q, Ready final u p ∧ Does final u (does u.1).1 (does u.1).2 p q

/-- The units before a point of the order have run: they have the namespaces that they have at the
end, and they have printed their lines. -/
structure Carried (final : Environment) (does : ScriptUnit → List ScriptText × Option Value)
    (before : List ParsedUnit) (p : Progress) : Prop where
  namespaces : ∀ v ∈ before, p.1.environment.namespaces.find? v.1.name =
    final.namespaces.find? v.1.name
  output : p.1.output = before.flatMap fun v => (does v.1).1

section Behaviour

variable [CharacterNames] {r r' : Request} {scripts scripts' : List ParsedUnit}
  {final : Environment}
  {does : ScriptUnit → List ScriptText × Option Value}

/-- A unit prints these lines in the evaluation of a request. -/
def Prints (r : Request) (u : ScriptUnit) (lines : List ScriptText) : Prop :=
  ∃ before script after p q, Starts r before script after p ∧ script.1 = u ∧
    performAll p (tasksOf script) = .ok q ∧ q.1.output = p.1.output ++ lines

/-- What a run to the end shows about every unit. -/
theorem exists_behaves (h : Reordered r r') (hscripts : AreScripts r.units scripts)
    {last : Progress}
    (hlast : performAll (startState r scripts, none) (scripts.flatMap tasksOf) = .ok last) :
    ∃ does, Behaves r scripts last.1.environment does := by
  have hdependencies := dependencies_of_performAll hlast
  have hunits : ∀ unit : ScriptUnit, ∃ does : List ScriptText × Option Value, ∀ u ∈ scripts,
      u.1 = unit → ∃ p q, Ready last.1.environment u p ∧
        Does last.1.environment u does.1 does.2 p q := by
    intro unit
    by_cases hunit : ∃ u ∈ scripts, u.1 = unit
    swap
    · exact ⟨default, fun u hu heq => absurd ⟨u, hu, heq⟩ hunit⟩
    obtain ⟨u, hu, rfl⟩ := hunit
    obtain ⟨before, after, rfl⟩ := List.append_of_mem hu
    rw [List.flatMap_append] at hlast
    obtain ⟨p, hp, hrest⟩ := performAll_append_eq_ok.1 hlast
    have hstarts : Starts r before u after p := ⟨hscripts, hp⟩
    obtain ⟨lines, value, q, hdoes⟩ := hstarts.exists_does h.names hrest
    refine ⟨(lines, value), fun v hv heq => ?_⟩
    obtain rfl := hscripts.eq_of_unit_eq hv hu heq
    exact ⟨p, q, hstarts.ready_of_end h.names h.importsFirst hrest, hdoes⟩
  choose does hdoes using hunits
  refine ⟨does, fun d => by rw [hdependencies], fun d hd => ?_, fun u hu d hd => ?_,
    fun u hu => hdoes _ u hu rfl⟩
  · have hkeys := (extends_performAll hlast).keys
    rw [started_units, hscripts.map_name] at hkeys
    rw [Table.find?_eq_none_iff, hkeys]
    exact hd
  · rw [InReach, Environment.importsOf, hdependencies]
    have hmem := (hscripts.mem_iff u).1 hu
    exact h.refersToImports u.1 hmem.1 u.2 hmem.2 d hd

/-- Units behave in the same way in another order. -/
theorem Behaves.reorder (hb : Behaves r scripts final does) (h : Reordered r r')
    (hmem : ∀ u, u ∈ scripts' ↔ u ∈ scripts) : Behaves r' scripts' final does where
  dependencies d := (hb.dependencies d).trans (h.dependencies d)
  others d hd := hb.others d fun hmem => hd ((h.units.map _).mem_iff.1 hmem)
  owners u hu := hb.owners u ((hmem u).1 hu)
  units u hu := hb.units u ((hmem u).1 hu)

/-- The next unit does what it always does. -/
theorem Behaves.step (hb : Behaves r scripts final does) (hnames : (r.units.map (·.name)).Nodup)
    (hfirst : r.ImportsFirst) {before after : List ParsedUnit} {u : ParsedUnit} {p : Progress}
    (h : Starts r before u after p) (hu : u ∈ scripts) (hp : Carried final does before p) :
    ∃ q, Does final u (does u.1).1 (does u.1).2 p q ∧ Carried final does (before ++ [u]) q := by
  obtain ⟨p₀, q₀, hready, hdoes⟩ := hb.units u hu
  have hready' := h.ready_of_before hnames hfirst hb.dependencies hb.others hp.namespaces
  obtain ⟨q, hq⟩ := hdoes.of_ready hready hready' (hb.owners u hu)
  refine ⟨q, hq, fun v hv => ?_, ?_⟩
  · rcases List.mem_append.1 hv with hv | hv
    · rw [← hp.namespaces v hv]
      refine find?_performAll hq.performed fun t ht heq => ?_
      rw [unit_of_mem_tasksOf ht] at heq
      rw [← h.scripts.map_name, List.map_append] at hnames
      exact (List.nodup_append.1 hnames).2.2 _ (List.mem_map_of_mem hv) _ List.mem_cons_self
        heq.symm
    · rw [List.mem_singleton.1 hv, hq.own]
  · rw [hq.output, hp.output, List.flatMap_append, List.flatMap_singleton]

/-- One unit after the other does what it always does. -/
theorem Behaves.run (hb : Behaves r scripts final does) (hnames : (r.units.map (·.name)).Nodup)
    (hfirst : r.ImportsFirst) (hscripts : AreScripts r.units scripts)
    {before after : List ParsedUnit} (heq : scripts = before ++ after) :
    ∃ p, performAll (startState r scripts, none) (before.flatMap tasksOf) = .ok p ∧
      Carried final does before p := by
  induction before using List.reverseRecOn generalizing after with
  | nil => exact ⟨_, rfl, by simp, rfl⟩
  | append_singleton before u ih =>
    rw [List.append_assoc, List.singleton_append] at heq
    obtain ⟨p, hp, hcarried⟩ := ih heq
    have hstarts : Starts r before u after p := ⟨heq ▸ hscripts, heq ▸ hp⟩
    obtain ⟨q, hdoes, hq⟩ := hb.step hnames hfirst hstarts (heq ▸ by simp) hcarried
    refine ⟨q, ?_, hq⟩
    rw [List.flatMap_append, performAll_append_of_ok hp, List.flatMap_singleton, hdoes.performed]

theorem Behaves.prints (hb : Behaves r scripts final does) (hnames : (r.units.map (·.name)).Nodup)
    (hfirst : r.ImportsFirst) (hscripts : AreScripts r.units scripts) {u : ScriptUnit}
    (hu : u ∈ r.units) : Prints r u (does u).1 := by
  rw [← hscripts.map_unit] at hu
  obtain ⟨v, hv, rfl⟩ := List.mem_map.1 hu
  obtain ⟨before, after, heq⟩ := List.append_of_mem hv
  obtain ⟨p, hp, hcarried⟩ := hb.run hnames hfirst hscripts heq
  have hstarts : Starts r before v after p := ⟨heq ▸ hscripts, heq ▸ hp⟩
  obtain ⟨q, hdoes, -⟩ := hb.step hnames hfirst hstarts hv hcarried
  exact ⟨before, v, after, p, q, hstarts, rfl, hdoes.performed, hdoes.output⟩

/-- All units run to their end, and the value is what the root script comes to. -/
theorem Behaves.run_all (hb : Behaves r scripts final does) (hnames : (r.units.map (·.name)).Nodup)
    (hfirst : r.ImportsFirst) (hscripts : AreScripts r.units scripts) :
    ∃ q, performAll (startState r scripts, none) (scripts.flatMap tasksOf) = .ok q ∧
      Carried final does scripts q ∧ q.2 = (does r.root).2 := by
  obtain ⟨others, root, heq, hroot⟩ := hscripts.eq_append_root
  obtain ⟨p, hp, hcarried⟩ := hb.run hnames hfirst hscripts heq
  have hstarts : Starts r others root [] p := ⟨heq ▸ hscripts, heq ▸ hp⟩
  obtain ⟨q, hdoes, hq⟩ := hb.step hnames hfirst hstarts (heq ▸ by simp) hcarried
  refine ⟨q, ?_, heq ▸ hq, hroot ▸ hdoes.value⟩
  have htasks : scripts.flatMap tasksOf = others.flatMap tasksOf ++ tasksOf root := by
    rw [heq, List.flatMap_append, List.flatMap_singleton]
  rw [htasks, performAll_append_of_ok hp, hdoes.performed]

end Behaviour

section Evaluations

variable [CharacterNames] {r r' : Request} {scripts scripts' : List ParsedUnit} {e e' : Evaluation}

/-- An evaluation of scripts is successful if all units run to their end. -/
theorem success_iff_performAll (hnames : (r.units.map (·.name)).Nodup)
    (hscripts : AreScripts r.units scripts) (he : (evaluate r).outcome = .ok e) :
    e.success = true ↔
      ∃ q, performAll (startState r scripts, none) (scripts.flatMap tasksOf) = .ok q := by
  obtain ⟨e₀, done, q, he₀, hends⟩ := exists_endsAt hnames hscripts
  obtain rfl := Except.ok.inj (he.symm.trans he₀)
  rw [(reportsRun_of_endsAt hnames hscripts he hends).success]
  constructor
  · rintro rfl
    exact ⟨q, hends.performed⟩
  · rintro ⟨q', hq'⟩
    exact hends.begins.eq_of_length_le (hends.last _ _ List.prefix_rfl hq').length_le

/-- An evaluation is not successful if a unit is no script. -/
theorem exists_failure (hnames : (r.units.map (·.name)).Nodup)
    (hnone : ∀ scripts, ¬ AreScripts r.units scripts) :
    ∃ e, (evaluate r).outcome = .ok e ∧ e.success = false := by
  rcases evaluate_cases hnames with ⟨-, heval⟩ | ⟨scripts, hscripts, -⟩
  swap
  · exact absurd hscripts (hnone scripts)
  rw [heval]
  refine ⟨_, rfl, ?_⟩
  rcases areScripts_or_report r.units with ⟨scripts, hscripts⟩ | ⟨d, ds, hreports⟩
  · exact absurd hscripts (hnone scripts)
  have hd : d ∈ (readUnits r.units).filterMap parseReport? := hreports ▸ List.mem_cons_self
  obtain ⟨⟨u, x⟩, -, hx⟩ := List.mem_filterMap.1 hd
  cases x with
  | ok p => simp [parseReport?] at hx
  | error error =>
    obtain rfl := Option.some.inj hx
    simp [Evaluation.success, hreports, hasFailure, Severity.isFailure]

/-- Two evaluations come to the same up to the order of the units: every unit has the same
namespace, the values are equal, and both print the lines of the units, each in its own order of the
units. -/
structure SameUpToOrder (r r' : Request) (e e' : Evaluation) : Prop where
  namespaces : ∀ u ∈ r.units, ∃ own : Namespace,
    e.namespaces.find? u.name = some own ∧ e'.namespaces.find? u.name = some own
  value : e.value = e'.value
  output : ∃ lines : ScriptUnit → List ScriptText,
    e.output = r.units.flatMap lines ∧ e'.output = r'.units.flatMap lines ∧
    ∀ u ∈ r.units, Prints r u (lines u) ∧ Prints r' u (lines u)

theorem flatMap_units (hscripts : AreScripts r.units scripts)
    (lines : ScriptUnit → List ScriptText) :
    (scripts.flatMap fun v => lines v.1) = r.units.flatMap lines := by
  rw [← hscripts.map_unit, List.flatMap_map]

/-- If all units run to their end in one order, they do in another, and come to the same. -/
theorem exists_sameUpToOrder (h : Reordered r r') (hscripts : AreScripts r.units scripts)
    (he : (evaluate r).outcome = .ok e) (hsuccess : e.success = true) :
    ∃ e', (evaluate r').outcome = .ok e' ∧ e'.success = true ∧ SameUpToOrder r r' e e' := by
  obtain ⟨last, hlast⟩ := (success_iff_performAll h.names hscripts he).1 hsuccess
  obtain ⟨does, hb⟩ := exists_behaves h hscripts hlast
  obtain ⟨scripts', hscripts', hmem⟩ := h.exists_areScripts hscripts
  have hb' := hb.reorder h hmem
  have hnames' := h.symm.names
  obtain ⟨q, hq, hcarried, hvalue⟩ := hb.run_all h.names h.importsFirst hscripts
  obtain ⟨q', hq', hcarried', hvalue'⟩ := hb'.run_all hnames' h.importsFirst' hscripts'
  obtain rfl := Except.ok.inj (hlast.symm.trans hq)
  have heval := evaluate_of_performAll h.names hscripts hq
  have heval' := evaluate_of_performAll hnames' hscripts' hq'
  rw [heval] at he
  obtain rfl := Except.ok.inj he
  refine ⟨_, by rw [heval']; rfl, ?_, ?_, ?_, ?_⟩
  · exact (success_iff_performAll hnames' hscripts' (by rw [heval']; rfl)).2 ⟨q', hq'⟩
  · intro u hu
    rw [← hscripts.map_unit] at hu
    obtain ⟨v, hv, rfl⟩ := List.mem_map.1 hu
    have hkeys := (extends_performAll hlast).keys
    rw [started_units] at hkeys
    have hown : v.1.name ∈ last.1.environment.namespaces.keys := by
      rw [hkeys]
      exact List.mem_append_right _ (List.mem_map_of_mem hv)
    obtain ⟨own, hown⟩ := Table.exists_find?_of_mem_keys hown
    exact ⟨own, hown, (hcarried'.namespaces v ((hmem v).2 hv)).trans hown⟩
  · rw [h.root] at hvalue
    exact hvalue.trans hvalue'.symm
  · refine ⟨fun u => (does u).1, ?_, ?_, fun u hu => ⟨?_, ?_⟩⟩
    · exact hcarried.output.trans (flatMap_units hscripts fun u => (does u).1)
    · exact hcarried'.output.trans (flatMap_units hscripts' fun u => (does u).1)
    · exact hb.prints h.names h.importsFirst hscripts hu
    · exact hb'.prints hnames' h.importsFirst' hscripts' (h.units.mem_iff.1 hu)

/-- The order of units that do not import each other makes no difference: the evaluations of both
requests are successful or neither is, and then they come to the same up to the order of the units'
lines. -/
theorem evaluate_reordered (h : Reordered r r') :
    ∃ e e', (evaluate r).outcome = .ok e ∧ (evaluate r').outcome = .ok e' ∧
      (e.success = true ↔ e'.success = true) ∧ (e.success = true → SameUpToOrder r r' e e') := by
  by_cases hscripts : ∃ scripts, AreScripts r.units scripts
  · obtain ⟨scripts, hscripts⟩ := hscripts
    obtain ⟨scripts', hscripts', -⟩ := h.exists_areScripts hscripts
    obtain ⟨e, -, -, he, -⟩ := exists_endsAt h.names hscripts
    obtain ⟨e', -, -, he', -⟩ := exists_endsAt h.symm.names hscripts'
    refine ⟨e, e', he, he', ⟨fun hsuccess => ?_, fun hsuccess => ?_⟩, fun hsuccess => ?_⟩
    · obtain ⟨e₀, he₀, hsuccess₀, -⟩ := exists_sameUpToOrder h hscripts he hsuccess
      rwa [Except.ok.inj (he'.symm.trans he₀)]
    · obtain ⟨e₀, he₀, hsuccess₀, -⟩ := exists_sameUpToOrder h.symm hscripts' he' hsuccess
      rwa [Except.ok.inj (he.symm.trans he₀)]
    · obtain ⟨e₀, he₀, -, hsame⟩ := exists_sameUpToOrder h hscripts he hsuccess
      rwa [Except.ok.inj (he'.symm.trans he₀)]
  · have hnone' : ∀ scripts', ¬ AreScripts r'.units scripts' := fun scripts' hscripts' => by
      obtain ⟨scripts, hs, -⟩ := h.symm.exists_areScripts hscripts'
      exact hscripts ⟨scripts, hs⟩
    obtain ⟨e, he, hfails⟩ := exists_failure h.names (not_exists.1 hscripts)
    obtain ⟨e', he', hfails'⟩ := exists_failure h.symm.names hnone'
    exact ⟨e, e', he, he', by simp [hfails, hfails'], by simp [hfails]⟩

end Evaluations

/-- A root that imports two scripts, each of which stands for itself. -/
def neighbours : Request where
  root := ⟨.ofString "/w/scripts/main.custom.kts", "Main", "println(x + B.y)\nA.x\n"⟩
  imports := [⟨.ofString "/w/scripts/a.custom.kts", "A", "println(\"a\")\nval x = 1\n"⟩,
    ⟨.ofString "/w/scripts/b.custom.kts", "B", "println(\"b\")\nval y = 2\n"⟩]
  dependencies := .ofList [("A", []), ("B", []), ("Main", ["A", "B"])]

/-- The same scripts, the other import first. -/
def neighboursSwapped : Request :=
  { neighbours with imports := neighbours.imports.reverse }

attribute [local instance] CharacterNames.none

theorem evaluate_neighbours : Reordered neighbours neighboursSwapped ∧
    ∃ e e', (evaluate neighbours).outcome = .ok e ∧ (evaluate neighboursSwapped).outcome = .ok e' ∧
      SameUpToOrder neighbours neighboursSwapped e e' ∧
      e.output = ["a", "b", "3"] ∧ e'.output = ["b", "a", "3"] := by
  have hreordered : Reordered neighbours neighboursSwapped :=
    ⟨rfl, .swap _ _ _, fun _ => rfl, by decide, by decide +kernel, by decide +kernel,
      by decide +kernel⟩
  have houtput : (evaluate neighbours).outcome.toOption.map (fun e => (e.success, e.output)) =
      some (true, [("a" : ScriptText), "b", "3"]) := by decide +kernel
  have houtput' : (evaluate neighboursSwapped).outcome.toOption.map (·.output) =
      some [("b" : ScriptText), "a", "3"] := by decide +kernel
  obtain ⟨e, e', he, he', -, hsame⟩ := evaluate_reordered hreordered
  obtain ⟨hsuccess, houtput⟩ : e.success = true ∧ e.output = ["a", "b", "3"] := by
    simpa [he, Except.toOption] using houtput
  exact ⟨hreordered, e, e', he, he', hsame hsuccess, houtput,
    by simpa [he', Except.toOption] using houtput'⟩

end Interpreter

end ScriptRunner
