import ScriptRunner.ImportGraph.InPlace
import ScriptRunner.Proofs.ImportGraph.Changes

/-!
# The names of a graph

A graph keeps a table of names beside its table of scripts and writes them one after the other. In
every state that changes in place lead to, those that are refused included, the names are an index
of the scripts: each name leads to the one script that has it, and both tables have the same order.

## Main definitions

* `ImportGraph.Change.inPlace` - a change as it is carried out.
* `ImportGraph.stateAfter` - the graph that a change leaves, refused or not.
* `ImportGraph.IsIndexed` - the names are an index of the scripts.
* `ImportGraph.Refuses` - why a graph refuses a change.

## Main statements

* `ImportGraph.run_inPlace` - a change in place makes the changed graph, or leaves the graph as it
  was.
* `ImportGraph.Consistent.apply_eq_error_iff` - which changes are refused.
* `ImportGraph.afterAll_indexed` - the names are an index in every state.
-/

namespace ScriptRunner

namespace ImportGraph

/-- A change as it is carried out on a graph that is kept. -/
def Change.inPlace : Change → InPlace Unit
  | add n => .add n
  | update n => .update n
  | freeze => .freeze

/-- A change in place makes the changed graph, or leaves the graph as it was. -/
theorem run_inPlace (change : Change) (g : ImportGraph) :
    change.inPlace.run g = InPlace.ofOutcome g (change.apply g) := by
  cases change with
  | add n => exact InPlace.run_add n g
  | update n => exact InPlace.run_update n g
  | freeze => exact InPlace.run_freeze g

/-- The graph that a change in place leaves, whether it is refused or not. -/
def stateAfter (g : ImportGraph) (change : Change) : ImportGraph :=
  match change.inPlace.run g with
  | .ok _ g' => g'
  | .error _ g' => g'

theorem stateAfter_eq_attempt (g : ImportGraph) (change : Change) :
    g.stateAfter change = g.attempt change := by
  rw [stateAfter, run_inPlace, attempt]
  cases change.apply g <;> rfl

/-- The graph of a root after changes in place, each made to what the one before left. -/
def afterAll (root : Path) (changes : List Change) : ImportGraph :=
  changes.foldl stateAfter (empty root)

/-- Graphs that are changed in place are the graphs that changes build. -/
theorem built_afterAll (root : Path) (changes : List Change) : (afterAll root changes).Built :=
  ⟨root, changes, by rw [afterAll, funext₂ stateAfter_eq_attempt]⟩

/-- The names of a graph are an index of its scripts. -/
structure IsIndexed (g : ImportGraph) : Prop where
  /-- A script stands at its own path. -/
  path_eq : ∀ path n, g.node? path = some n → n.path = path
  /-- A name leads to a path exactly if the script there has the name. -/
  find?_name_iff : ∀ name path, g.names.find? name = some path ↔
    ∃ n, g.node? path = some n ∧ n.name = name
  size_eq : g.names.size = g.nodes.size
  /-- The scripts and the names came in in the same order. -/
  entries_eq : g.names.entries = g.nodes.entries.map fun entry => (entry.2.name, entry.1)
  /-- A script is found by its name, and no other script has that name. -/
  byName?_eq_some_iff : ∀ name n, g.byName? name = some n ↔
    (g.node? n.path = some n ∧ n.name = name) ∧
      ∀ path m, g.node? path = some m → m.name = name → m = n
  /-- Nothing is found exactly if no script has the name. -/
  byName?_eq_none_iff : ∀ name, g.byName? name = none ↔
    ∀ path n, g.node? path = some n → n.name ≠ name

namespace Consistent

variable {g : ImportGraph}

theorem byName?_eq_some_iff (hg : g.Consistent) (name : String) (n : ScriptNode) :
    g.byName? name = some n ↔ g.node? n.path = some n ∧ n.name = name := by
  rw [byName?, Option.bind_eq_some_iff]
  constructor
  · rintro ⟨path, hpath, hn⟩
    obtain ⟨m, hm, hname⟩ := (hg.find?_name_iff name path).1 hpath
    obtain rfl := Option.some.inj (hn.symm.trans hm)
    obtain rfl := hg.path_of_node? hn
    exact ⟨hn, hname⟩
  · rintro ⟨hn, hname⟩
    exact ⟨n.path, (hg.find?_name_iff name n.path).2 ⟨n, hn, hname⟩, hn⟩

theorem isIndexed (hg : g.Consistent) : g.IsIndexed where
  path_eq _ _ h := hg.path_of_node? h
  find?_name_iff := hg.find?_name_iff
  size_eq := by simp [Table.size, hg.names_eq]
  entries_eq := hg.names_eq
  byName?_eq_some_iff name n := by
    rw [hg.byName?_eq_some_iff]
    refine ⟨fun h => ⟨h, fun path m hm hname => ?_⟩, And.left⟩
    obtain rfl := hg.eq_of_name_eq hm h.1 (hname.trans h.2.symm)
    exact Option.some.inj (hm.symm.trans h.1)
  byName?_eq_none_iff name := by
    simp only [Option.eq_none_iff_forall_ne_some, Ne, hg.byName?_eq_some_iff, not_and]
    constructor
    · intro h path n hn
      exact h n (by rwa [hg.path_of_node? hn])
    · exact fun h n hn => h n.path n hn

end Consistent

/-- Why a graph refuses a change, in terms of its scripts alone. -/
inductive Refuses (g : ImportGraph) : Change → GraphFault → Prop
  | addFrozen {n : ScriptNode} (hfrozen : g.frozen = true) : Refuses g (.add n) .frozen
  /-- A script at another path has the name. -/
  | collision {n m : ScriptNode} {path : Path} (hfrozen : g.frozen = false)
    (hm : g.node? path = some m) (hname : m.name = n.name) (hpath : path ≠ n.path) :
    Refuses g (.add n) (.collision n.name path n.path)
  | alreadyPresent {n m : ScriptNode} (hfrozen : g.frozen = false)
    (hname : ∀ path m, g.node? path = some m → m.name = n.name → path = n.path)
    (hm : g.node? n.path = some m) : Refuses g (.add n) (.alreadyPresent n.path)
  | updateFrozen {n : ScriptNode} (hfrozen : g.frozen = true) : Refuses g (.update n) .frozen
  | absent {n : ScriptNode} (hfrozen : g.frozen = false) (hn : g.node? n.path = none) :
    Refuses g (.update n) (.absent n.path)
  | rename {n m : ScriptNode} (hfrozen : g.frozen = false) (hm : g.node? n.path = some m)
    (hname : m.name ≠ n.name) : Refuses g (.update n) (.rename n.path m.name n.name)

theorem Consistent.collision?_eq_some_iff {g : ImportGraph} (hg : g.Consistent) (n : ScriptNode)
    (path : Path) : g.collision? n = some path ↔
      (∃ m, g.node? path = some m ∧ m.name = n.name) ∧ path ≠ n.path := by
  simp [collision?, Option.filter_eq_some_iff, hg.find?_name_iff]

theorem Consistent.add_eq_error_iff {g : ImportGraph} (hg : g.Consistent) (n : ScriptNode)
    (fault : GraphFault) : g.add n = .error fault ↔ g.Refuses (.add n) fault := by
  constructor
  · intro h
    unfold ImportGraph.add at h
    split at h
    next hfrozen => exact Except.error.inj h ▸ .addFrozen hfrozen
    next hfrozen =>
    have hfrozen := Bool.eq_false_iff.2 hfrozen
    split at h
    next existing hcollision =>
      obtain ⟨⟨m, hm, hname⟩, hpath⟩ := (hg.collision?_eq_some_iff n existing).1 hcollision
      exact Except.error.inj h ▸ .collision hfrozen hm hname hpath
    next hcollision =>
    split at h
    next hcontains =>
      obtain ⟨m, hm⟩ := Option.isSome_iff_exists.1 hcontains
      refine Except.error.inj h ▸ .alreadyPresent hfrozen (fun path m hm hname => ?_) hm
      by_contra hpath
      simp [(hg.collision?_eq_some_iff n path).2 ⟨⟨m, hm, hname⟩, hpath⟩] at hcollision
    next => simp at h
  · intro h
    cases h with
    | addFrozen hfrozen => simp [ImportGraph.add, hfrozen]
    | collision hfrozen hm hname hpath =>
      simp [ImportGraph.add, hfrozen, (hg.collision?_eq_some_iff n _).2 ⟨⟨_, hm, hname⟩, hpath⟩]
    | alreadyPresent hfrozen hname hm =>
      have hcollision : g.collision? n = none := by
        refine Option.eq_none_iff_forall_ne_some.2 fun path hpath => ?_
        obtain ⟨⟨m, hm, hnames⟩, hne⟩ := (hg.collision?_eq_some_iff n path).1 hpath
        exact hne (hname path m hm hnames)
      have hcontains : g.contains n.path = true := Option.isSome_iff_exists.2 ⟨_, hm⟩
      simp [ImportGraph.add, hfrozen, hcollision, hcontains]

theorem update_eq_error_iff (g : ImportGraph) (n : ScriptNode) (fault : GraphFault) :
    g.update n = .error fault ↔ g.Refuses (.update n) fault := by
  constructor
  · intro h
    unfold update at h
    split at h
    next hfrozen => exact Except.error.inj h ▸ .updateFrozen hfrozen
    next hfrozen =>
    have hfrozen := Bool.eq_false_iff.2 hfrozen
    split at h
    next hnode => exact Except.error.inj h ▸ .absent hfrozen hnode
    next current hnode =>
    split at h
    next hname => exact Except.error.inj h ▸ .rename hfrozen hnode hname
    next => simp at h
  · intro h
    cases h with
    | updateFrozen hfrozen => simp [update, hfrozen]
    | absent hfrozen hnode => simp [update, hfrozen, hnode]
    | rename hfrozen hm hname => simp [update, hfrozen, hm, hname]

/-- A change is refused exactly for these reasons. -/
theorem Consistent.apply_eq_error_iff {g : ImportGraph} (hg : g.Consistent) (change : Change)
    (fault : GraphFault) : change.apply g = .error fault ↔ g.Refuses change fault := by
  cases change with
  | add n => exact hg.add_eq_error_iff n fault
  | update n => exact g.update_eq_error_iff n fault
  | freeze => exact ⟨fun h => by simp [Change.apply] at h, fun h => by cases h⟩

/-- Nothing changes a frozen graph. -/
theorem stateAfter_freeze (g : ImportGraph) (change : Change) :
    g.freeze.stateAfter change = g.freeze := by
  have hfrozen : g.freeze.frozen = true := rfl
  rw [stateAfter, run_inPlace]
  cases change with
  | add n => simp [Change.apply, add, hfrozen, InPlace.ofOutcome]
  | update n => simp [Change.apply, update, hfrozen, InPlace.ofOutcome]
  | freeze => rfl

theorem foldl_stateAfter_freeze (g : ImportGraph) (changes : List Change) :
    changes.foldl stateAfter g.freeze = g.freeze := by
  induction changes with
  | nil => rfl
  | cons change changes ih => rw [List.foldl_cons, stateAfter_freeze, ih]

/-- In every state that changes in place lead to, the names are an index of the scripts. A change
that is refused leaves the graph exactly as it was, and nothing changes a frozen graph. -/
theorem afterAll_indexed (root : Path) (changes : List Change) :
    (afterAll root changes).IsIndexed ∧
    (∀ change fault left, change.inPlace.run (afterAll root changes) = .error fault left ↔
      (afterAll root changes).Refuses change fault ∧ left = afterAll root changes) ∧
    ∀ later, afterAll root (changes ++ .freeze :: later) = (afterAll root changes).freeze := by
  have hconsistent := (built_afterAll root changes).consistent
  refine ⟨hconsistent.isIndexed, fun change fault left => ?_, fun later => ?_⟩
  · rw [run_inPlace, ← hconsistent.apply_eq_error_iff]
    cases change.apply (afterAll root changes) <;> simp [InPlace.ofOutcome, eq_comm]
  · rw [afterAll, List.foldl_append, List.foldl_cons]
    exact foldl_stateAfter_freeze _ later

end ImportGraph

end ScriptRunner
