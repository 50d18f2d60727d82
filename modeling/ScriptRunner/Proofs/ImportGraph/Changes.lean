import Mathlib.Data.List.Nodup
import ScriptRunner.ImportGraph

/-!
# Changes of import graphs

What holds of every graph that comes out of additions, updates and freezing, whether they succeed or
not: the two tables of a graph list the same scripts in the same order.

## Main definitions

* `ImportGraph.Change`, `ImportGraph.attempt` - a change, and the graph after it has been tried.
* `ImportGraph.Built` - the graphs that changes bring about.
* `ImportGraph.Consistent` - the agreement of the two tables.

## Main statements

* `ImportGraph.Built.consistent` - the tables of every graph that changes bring about agree.
-/

namespace ScriptRunner

namespace ImportGraph

/-- A change that a graph is asked for. -/
inductive Change where
  | add (n : ScriptNode)
  | update (n : ScriptNode)
  | freeze

/-- The graph after a change, or the fault with which it is refused. -/
def Change.apply (g : ImportGraph) : Change → Except GraphFault ImportGraph
  | add n => g.add n
  | update n => g.update n
  | freeze => .ok g.freeze

/-- The graph after a change has been tried. -/
def attempt (g : ImportGraph) (change : Change) : ImportGraph :=
  match change.apply g with
  | .ok g' => g'
  | .error _ => g

/-- A graph that changes make out of the empty graph of a root. -/
def Built (g : ImportGraph) : Prop :=
  ∃ root changes, g = List.foldl attempt (empty root) changes

/-- The two tables of a graph agree: a script stands at its own path, and its name leads to that
path, in the same order. -/
structure Consistent (g : ImportGraph) : Prop where
  path_eq : ∀ entry ∈ g.nodes.entries, entry.2.path = entry.1
  names_eq : g.names.entries = g.nodes.entries.map fun entry => (entry.2.name, entry.1)

theorem node?_eq_some_iff (g : ImportGraph) (path : Path) (n : ScriptNode) :
    g.node? path = some n ↔ (path, n) ∈ g.nodes.entries :=
  g.nodes.find?_eq_some_iff path n

namespace Consistent

variable {g : ImportGraph}

theorem path_of_node? (hg : g.Consistent) {path : Path} {n : ScriptNode}
    (h : g.node? path = some n) : n.path = path :=
  hg.path_eq _ ((g.node?_eq_some_iff path n).1 h)

/-- A name leads to the path of the script that has it. -/
theorem find?_name_iff (hg : g.Consistent) (name : String) (path : Path) :
    g.names.find? name = some path ↔ ∃ n, g.node? path = some n ∧ n.name = name := by
  rw [Table.find?_eq_some_iff, hg.names_eq, List.mem_map]
  constructor
  · rintro ⟨⟨p, n⟩, hmem, heq⟩
    obtain ⟨rfl, rfl⟩ := Prod.mk.inj heq
    exact ⟨n, (g.node?_eq_some_iff p n).2 hmem, rfl⟩
  · rintro ⟨n, hn, rfl⟩
    exact ⟨(path, n), (g.node?_eq_some_iff path n).1 hn, rfl⟩

/-- No two scripts have one name. -/
theorem nodup_names (hg : g.Consistent) : (g.nodes.values.map (·.name)).Nodup := by
  have h := g.names.distinct
  rw [hg.names_eq, List.map_map] at h
  simpa [Table.values, Function.comp_def] using h

/-- Two scripts with one name are one script. -/
theorem eq_of_name_eq (hg : g.Consistent) {p q : Path} {m n : ScriptNode}
    (hm : g.node? p = some m) (hn : g.node? q = some n) (h : m.name = n.name) : p = q := by
  have hp := (hg.find?_name_iff m.name p).2 ⟨m, hm, rfl⟩
  have hq := (hg.find?_name_iff m.name q).2 ⟨n, hn, h.symm⟩
  exact Option.some.inj (hp.symm.trans hq)

theorem empty (root : Path) : (ImportGraph.empty root).Consistent :=
  ⟨by simp [ImportGraph.empty, Table.empty], rfl⟩

theorem freeze (hg : g.Consistent) : g.freeze.Consistent :=
  ⟨hg.path_eq, hg.names_eq⟩

end Consistent

/-- An addition that succeeds finds neither the path nor the name in the graph. -/
theorem add_eq_ok {g g' : ImportGraph} {n : ScriptNode} (hg : g.Consistent)
    (h : g.add n = .ok g') :
    g.frozen = false ∧ n.path ∉ g.nodes.keys ∧ n.name ∉ g.names.keys ∧ g' = g.store n := by
  unfold add at h
  split at h
  · simp at h
  next hfrozen =>
  split at h
  · simp at h
  next hcollision =>
  split at h
  · simp at h
  next habsent =>
  have hpath : n.path ∉ g.nodes.keys := by
    rwa [← Table.contains_iff_mem_keys]
  refine ⟨by simpa using hfrozen, hpath, fun hname => ?_, (Except.ok.inj h).symm⟩
  obtain ⟨p, hp⟩ := Table.exists_find?_of_mem_keys hname
  -- The name can only lead to the path itself, where there is no script.
  have hpn : p = n.path := by simpa [collision?, hp] using hcollision
  obtain ⟨m, hm, -⟩ := (hg.find?_name_iff n.name p).1 hp
  exact hpath (hpn ▸ Table.mem_keys_of_find? hm)

/-- An addition puts one script at the end of both tables. -/
theorem Consistent.store {g : ImportGraph} (hg : g.Consistent) {n : ScriptNode}
    (hpath : n.path ∉ g.nodes.keys) (hname : n.name ∉ g.names.keys) : (g.store n).Consistent := by
  have hnodes : (g.store n).nodes.entries = g.nodes.entries ++ [(n.path, n)] :=
    Table.entries_insert_of_not_mem n hpath
  have hnames : (g.store n).names.entries = g.names.entries ++ [(n.name, n.path)] :=
    Table.entries_insert_of_not_mem n.path hname
  constructor
  · intro entry hentry
    rw [hnodes, List.mem_append, List.mem_singleton] at hentry
    rcases hentry with hentry | rfl
    · exact hg.path_eq entry hentry
    · rfl
  · rw [hnames, hnodes, hg.names_eq, List.map_append, List.map_singleton]

theorem Consistent.add {g g' : ImportGraph} (hg : g.Consistent) {n : ScriptNode}
    (h : g.add n = .ok g') : g'.Consistent := by
  obtain ⟨-, hpath, hname, rfl⟩ := add_eq_ok hg h
  exact hg.store hpath hname

/-- An update that succeeds finds a script with the same path and name. -/
theorem update_eq_ok {g g' : ImportGraph} {n : ScriptNode} (h : g.update n = .ok g') :
    g.frozen = false ∧ (∃ current, g.node? n.path = some current ∧ current.name = n.name) ∧
      g' = { g with nodes := g.nodes.insert n.path n } := by
  unfold update at h
  split at h
  · simp at h
  next hfrozen =>
  split at h
  · simp at h
  next current hcurrent =>
  split at h
  · simp at h
  next hname =>
  exact ⟨by simpa using hfrozen, ⟨current, hcurrent, not_not.1 hname⟩, (Except.ok.inj h).symm⟩

/-- An update leaves the order of the scripts and their names as they are. -/
theorem Consistent.update {g g' : ImportGraph} (hg : g.Consistent) {n : ScriptNode}
    (h : g.update n = .ok g') : g'.Consistent := by
  obtain ⟨-, ⟨current, hcurrent, hname⟩, rfl⟩ := update_eq_ok h
  have hnodes : (g.nodes.insert n.path n).entries =
      g.nodes.entries.map fun entry => if entry.1 = n.path then (n.path, n) else entry :=
    Table.entries_insert_of_mem n (Table.mem_keys_of_find? hcurrent)
  constructor
  · intro entry hentry
    rw [hnodes, List.mem_map] at hentry
    obtain ⟨old, hold, rfl⟩ := hentry
    by_cases hp : old.1 = n.path
    · simp [hp]
    · simpa [hp] using hg.path_eq old hold
  · rw [hnodes, hg.names_eq, List.map_map]
    refine List.map_congr_left fun old hold => ?_
    by_cases hp : old.1 = n.path
    · have hlook : g.node? old.1 = some old.2 := (g.node?_eq_some_iff _ _).2 hold
      rw [hp, hcurrent] at hlook
      simp [hp, ← Option.some.inj hlook, hname]
    · simp [hp]

theorem Consistent.attempt {g : ImportGraph} (hg : g.Consistent) (change : Change) :
    (g.attempt change).Consistent := by
  unfold ImportGraph.attempt
  split
  next g' h =>
    cases change with
    | add n => exact hg.add h
    | update n => exact hg.update h
    | freeze =>
      rw [← Except.ok.inj h]
      exact hg.freeze
  next => exact hg

/-- The tables of every graph that changes bring about agree. -/
theorem Built.consistent {g : ImportGraph} (h : g.Built) : g.Consistent := by
  obtain ⟨root, changes, rfl⟩ := h
  suffices ∀ start : ImportGraph, start.Consistent → (changes.foldl attempt start).Consistent from
    this _ (Consistent.empty root)
  induction changes with
  | nil => exact fun _ hstart => hstart
  | cons change changes ih => exact fun start hstart => ih _ (hstart.attempt change)

end ImportGraph

end ScriptRunner
