import ScriptRunner.ImportGraph

/-!
# Graphs apart from directives

The changes of a graph do not look at how the imports of a script are declared. So graphs that agree
apart from that still agree after the same changes.

## Main definitions

* `Table.mapValues` - a table with its values seen through a function.
* `ImportGraph.withoutDirectives` - a graph apart from the directives of its scripts.
* `ImportGraph.SameScripts` - two graphs agree apart from directives.

## Main statements

* `ImportGraph.add_withoutDirectives`, `ImportGraph.update_withoutDirectives` - changes of a graph
  seen without directives.
-/

namespace ScriptRunner

namespace Table

variable {κ α β : Type}

/-- A table with its values seen through a function. -/
def mapValues (f : α → β) (t : Table κ α) : Table κ β where
  entries := t.entries.map fun entry => (entry.1, f entry.2)
  distinct := by
    rw [List.map_map]
    exact t.distinct

variable [DecidableEq κ]

theorem lookup_map (f : α → β) (key : κ) (entries : List (κ × α)) :
    lookup key (entries.map fun entry => (entry.1, f entry.2)) = (lookup key entries).map f := by
  induction entries with
  | nil => rfl
  | cons entry rest ih =>
    by_cases h : entry.1 = key
    · simp [lookup, h]
    · simpa [lookup, h] using ih

theorem find?_mapValues (f : α → β) (t : Table κ α) (key : κ) :
    (t.mapValues f).find? key = (t.find? key).map f :=
  lookup_map f key t.entries

theorem put_map (f : α → β) (key : κ) (value : α) (entries : List (κ × α)) :
    (put key value entries).map (fun entry => (entry.1, f entry.2)) =
      put key (f value) (entries.map fun entry => (entry.1, f entry.2)) := by
  induction entries with
  | nil => rfl
  | cons entry rest ih =>
    by_cases h : entry.1 = key
    · simp [put, h]
    · simpa [put, h] using ih

theorem mapValues_insert (f : α → β) (t : Table κ α) (key : κ) (value : α) :
    (t.insert key value).mapValues f = (t.mapValues f).insert key (f value) := by
  simp only [mapValues, insert, put_map]

end Table

def ScriptNode.withoutDirectives (n : ScriptNode) : ScriptNode :=
  { n with directives := [] }

namespace ImportGraph

/-- A graph as far as it does not depend on how imports are declared. -/
def withoutDirectives (g : ImportGraph) : ImportGraph :=
  { g with nodes := g.nodes.mapValues ScriptNode.withoutDirectives }

theorem node?_withoutDirectives (g : ImportGraph) (path : Path) :
    g.withoutDirectives.node? path = (g.node? path).map ScriptNode.withoutDirectives :=
  Table.find?_mapValues _ g.nodes path

theorem contains_withoutDirectives (g : ImportGraph) (path : Path) :
    g.withoutDirectives.contains path = g.contains path := by
  have h := g.node?_withoutDirectives path
  unfold node? at h
  simp [contains, Table.contains, h]

theorem add_withoutDirectives (g : ImportGraph) (n : ScriptNode) :
    g.withoutDirectives.add n.withoutDirectives = (g.add n).map withoutDirectives := by
  have hcollision : g.withoutDirectives.collision? n.withoutDirectives = g.collision? n := rfl
  have hstore : g.withoutDirectives.store n.withoutDirectives = (g.store n).withoutDirectives := by
    simp only [withoutDirectives, store, Table.mapValues_insert, ScriptNode.withoutDirectives]
  unfold add
  rw [hcollision, hstore, contains_withoutDirectives]
  by_cases hfrozen : g.frozen = true
  · simp [withoutDirectives, hfrozen, Except.map]
  · cases g.collision? n with
    | some existing => simp [withoutDirectives, hfrozen, Except.map, ScriptNode.withoutDirectives]
    | none =>
      by_cases hin : g.contains n.path = true <;>
        simp [withoutDirectives, hfrozen, hin, Except.map, ScriptNode.withoutDirectives]

theorem update_withoutDirectives (g : ImportGraph) (n : ScriptNode) :
    g.withoutDirectives.update n.withoutDirectives = (g.update n).map withoutDirectives := by
  unfold update
  rw [node?_withoutDirectives]
  by_cases hfrozen : g.frozen = true
  · simp [withoutDirectives, hfrozen, Except.map]
  · cases hn : g.node? n.path with
    | none => simp [withoutDirectives, hfrozen, hn, Except.map, ScriptNode.withoutDirectives]
    | some current =>
      by_cases hname : current.name = n.name <;>
        simp [withoutDirectives, hfrozen, hn, hname, Except.map, ScriptNode.withoutDirectives,
          Table.mapValues_insert]

/-- Two graphs differ at most in the directives of their scripts. -/
def SameScripts (g g' : ImportGraph) : Prop :=
  g.withoutDirectives = g'.withoutDirectives

theorem SameScripts.contains_eq {g g' : ImportGraph} (h : g.SameScripts g') (path : Path) :
    g.contains path = g'.contains path := by
  rw [← g.contains_withoutDirectives, h, g'.contains_withoutDirectives]

end ImportGraph

end ScriptRunner
