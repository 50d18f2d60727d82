import Mathlib.Tactic.Tauto
import ScriptRunner.FileSystem.Snapshot
import ScriptRunner.Proofs.DepthFirst
import ScriptRunner.Proofs.ImportGraph.Changes
import ScriptRunner.Proofs.Resolution.Success

/-!
# The graph of what a root script reaches

A resolution that comes to a graph has walked depth-first through everything that the root script
reaches, and the graph holds exactly that, each script with what its file says.

## Main definitions

* `Resolver.Imports` - one script imports another, by what the files and their directives say.
* `Resolver.importsOf` - the imports of a script in the order of its directives.
* `Resolver.Resolved` - a node holds all that there is to know of its script.
* `Resolver.IsGraphOf` - a graph is the complete graph of a root.

## Main statements

* `Resolver.visit_grows` - what a visit adds to a graph.
* `Resolver.isGraphOf_of_resolve` - a resolution that succeeds comes to the complete graph.
-/

namespace ScriptRunner

namespace Resolver

variable (r : Resolver)

/-- The directives of the script at a path lead to an existing file. -/
def Imports (p q : Path) : Prop :=
  ∃ text, r.files.readText r.settings.codec p = .ok text ∧
    ∃ d ∈ (r.extractor p text).directives, r.target p d = q ∧ r.files.HasFile q

/-- The files that directives of a script lead to, in order and with repetitions. -/
def located (declaring : Path) (ds : List Directive) : List Path :=
  (ds.map (r.target declaring)).filter fun q => r.files.HasFile q

/-- The imports of the script at a path, in the order of its directives and with repetitions. -/
def importsOf (p : Path) : List Path :=
  match r.files.readText r.settings.codec p with
  | .ok text => r.located p (r.extractor p text).directives
  | .error _ => []

theorem mem_importsOf_iff (p q : Path) : q ∈ r.importsOf p ↔ r.Imports p q := by
  unfold importsOf Imports
  split
  next text htext =>
    simp only [located, List.mem_filter, List.mem_map, decide_eq_true_eq, htext, Except.ok.injEq]
    constructor
    · rintro ⟨⟨d, hd, rfl⟩, hfile⟩
      exact ⟨text, rfl, d, hd, rfl, hfile⟩
    · rintro ⟨_, rfl, d, hd, rfl, hfile⟩
      exact ⟨⟨d, hd, rfl⟩, hfile⟩
  next e he => simp [he]

theorem importsOf_eq {p : Path} {text : String}
    (h : r.files.readText r.settings.codec p = .ok text) :
    r.importsOf p = r.located p (r.extractor p text).directives := by
  simp only [importsOf, h]

/-- A target that is found again does not count again. -/
theorem appendNew_eraseDups (seen : List Path) (q : Path) :
    appendNew seen.eraseDups q = (seen ++ [q]).eraseDups := by
  rw [List.eraseDups_append]
  by_cases h : q ∈ seen <;> simp [appendNew, List.removeAll, h, List.eraseDups_cons]

/-- A node holds the name, the text and the directives of the script at its path, and its imports,
each where it is declared first. -/
structure Resolved (n : ScriptNode) : Prop where
  name : r.settings.naming.symbolName? n.path = some n.name
  source : r.files.readText r.settings.codec n.path = .ok n.source
  directives : n.directives = (r.extractor n.path n.source).directives
  imports : n.resolvedImports = (r.located n.path n.directives).eraseDups

/-- A graph grows by a depth-first walk over an agenda: the scripts that the walk enters are
resolved, those that were in the graph stay as they were. -/
structure Grows (g : ImportGraph) (agenda : List Path) (g' : ImportGraph)
    (entered left : List Path) : Prop where
  root_eq : g'.root = g.root
  consistent : g'.Consistent
  keys_eq : g'.nodes.keys = g.nodes.keys ++ entered
  walk : DepthFirst r.importsOf {q | q ∈ g.nodes.keys} agenda entered left
  kept : ∀ p ∈ g.nodes.keys, g'.node? p = g.node? p
  resolved : ∀ p ∈ entered, ∃ n, g'.node? p = some n ∧ n.path = p ∧ r.Resolved n

namespace Grows

variable {r} {g mid g' : ImportGraph} {agenda agenda' entered entered' left left' : List Path}

theorem refl (hg : g.Consistent) : r.Grows g [] g [] [] :=
  ⟨rfl, hg, by simp, .done _, fun _ _ => rfl, by simp⟩

theorem skip {p : Path} (hp : p ∈ g.nodes.keys) (h : r.Grows g agenda g' entered left) :
    r.Grows g (p :: agenda) g' entered left :=
  { h with walk := .skip hp h.walk }

theorem append (h : r.Grows g agenda mid entered left)
    (h' : r.Grows mid agenda' g' entered' left') :
    r.Grows g (agenda ++ agenda') g' (entered ++ entered') (left ++ left') where
  root_eq := h'.root_eq.trans h.root_eq
  consistent := h'.consistent
  keys_eq := by rw [h'.keys_eq, h.keys_eq, List.append_assoc]
  walk := by
    have hvisited : {q | q ∈ mid.nodes.keys} = {q | q ∈ g.nodes.keys} ∪ {q | q ∈ entered} := by
      ext q
      simp [h.keys_eq]
    exact h.walk.append (hvisited ▸ h'.walk)
  kept p hp := by
    have hmid : p ∈ mid.nodes.keys := h.keys_eq ▸ List.mem_append_left _ hp
    rw [h'.kept p hmid, h.kept p hp]
  resolved p hp := by
    rcases List.mem_append.1 hp with hp | hp
    · have hmid : p ∈ mid.nodes.keys := h.keys_eq ▸ List.mem_append_right _ hp
      rw [h'.kept p hmid]
      exact h.resolved p hp
    · exact h'.resolved p hp

/-- A script enters the graph before the files that it leads to, and its imports are attached once
all of them are there. -/
theorem enter {n n' : ScriptNode} (hg : g.Consistent) (hadd : g.add n = .ok mid)
    {last : ImportGraph} (h : r.Grows mid (r.importsOf n.path) last entered left)
    (hupdate : last.update n' = .ok g')
    (hpath : n'.path = n.path) (hn : r.Resolved n') :
    r.Grows g [n.path] g' (n.path :: entered) (left ++ [n.path]) := by
  have hconsistent := h.consistent.update hupdate
  obtain ⟨-, hnew, -, rfl⟩ := ImportGraph.add_eq_ok hg hadd
  obtain ⟨-, ⟨current, hcurrent, -⟩, rfl⟩ := ImportGraph.update_eq_ok hupdate
  rw [hpath] at hcurrent hconsistent ⊢
  have hkeys : (g.store n).nodes.keys = g.nodes.keys ++ [n.path] :=
    Table.keys_insert_of_not_mem n hnew
  have hvisited : {q | q ∈ (g.store n).nodes.keys} = insert n.path {q | q ∈ g.nodes.keys} := by
    ext q
    simp [hkeys, or_comm]
  -- The script counts as visited below it, so nothing there enters it again.
  have hne : ∀ q ∈ entered, n.path ≠ q := by
    rintro q hq rfl
    refine h.walk.not_mem_visited _ hq ?_
    rw [hvisited]
    exact Set.mem_insert _ _
  refine ⟨h.root_eq, hconsistent, ?_, ?_, fun q hq => ?_, fun q hq => ?_⟩
  · rw [Table.keys_insert_of_mem _ (Table.mem_keys_of_find? hcurrent), h.keys_eq, hkeys,
      List.append_assoc, List.singleton_append]
  · have hwalk := h.walk
    rw [hvisited] at hwalk
    have hroot : n.path ∉ {q | q ∈ g.nodes.keys} := hnew
    simpa using DepthFirst.enter hroot hwalk (.done _)
  · -- A script that was there before is not the new one, and the walk keeps it.
    have hpq : n.path ≠ q := fun heq => hnew (heq ▸ hq)
    have hmid : q ∈ (g.store n).nodes.keys := by
      rw [hkeys]
      exact List.mem_append_left _ hq
    calc (last.nodes.insert n.path n').find? q
      _ = last.node? q := Table.find?_insert_of_ne _ _ hpq
      _ = (g.store n).node? q := h.kept q hmid
      _ = g.node? q := Table.find?_insert_of_ne _ _ hpq
  · change ∃ m, (last.nodes.insert n.path n').find? q = some m ∧ _
    rcases List.mem_cons.1 hq with rfl | hq
    · rw [Table.find?_insert_self]
      exact ⟨n', rfl, hpath, hn⟩
    · rw [Table.find?_insert_of_ne _ _ (hne q hq)]
      exact h.resolved q hq

end Grows

/-- The visit of a script outside a graph, under its own name, enters all that the script leads to
and that is not in the graph. -/
def Visits (visit : ImportGraph → Path → String → Resolving ImportGraph) : Prop :=
  ∀ {g g' : ImportGraph} {p : Path} {name : String}, g.Consistent → p ∉ g.nodes.keys →
    r.settings.naming.symbolName? p = some name → (visit g p name).outcome = .ok g' →
    ∃ entered left, r.Grows g [p] g' entered left

/-- The directives of a script are followed by a walk over the files that they lead to, and the
imports are those files, each where it is found first. -/
theorem follow_grows {visit : ImportGraph → Path → String → Resolving ImportGraph}
    (hvisit : r.Visits visit) {declaring : Path} {g' : ImportGraph} {imports' : List Path}
    (ds : List Directive) :
    ∀ {g : ImportGraph} (seen : List Path), g.Consistent →
      (r.follow visit declaring g seen.eraseDups ds).outcome = .ok (g', imports') →
      imports' = (seen ++ r.located declaring ds).eraseDups ∧
        ∃ entered left, r.Grows g (r.located declaring ds) g' entered left := by
  induction ds with
  | nil =>
    intro g seen hg h
    obtain ⟨rfl, rfl⟩ := Prod.mk.inj (Except.ok.inj h)
    exact ⟨by simp [located], [], [], .refl hg⟩
  | cons d ds ih =>
    intro g seen hg h
    rcases r.follow_cons_eq_ok h with ⟨hfile, hrest⟩ | ⟨hfile, mid, hrest, hmid⟩
    · have hlocated : r.located declaring (d :: ds) = r.located declaring ds := by
        simp [located, hfile]
      rw [hlocated]
      exact ih seen hg hrest
    · have hlocated : r.located declaring (d :: ds) =
          r.target declaring d :: r.located declaring ds := by
        simp [located, hfile]
      rw [appendNew_eraseDups] at hrest
      rw [hlocated, List.append_cons]
      rcases hmid with ⟨hin, rfl⟩ | ⟨hout, name, hname, hmid⟩
      · -- The target is in the graph: the walk passes over it.
        obtain ⟨himports, entered, left, hgrows⟩ := ih _ hg hrest
        exact ⟨himports, entered, left, hgrows.skip ((Table.contains_iff_mem_keys _ _).1 hin)⟩
      · -- The target is visited, and the other directives are followed in the larger graph.
        have hout : r.target declaring d ∉ g.nodes.keys := by
          rw [← Table.contains_iff_mem_keys]
          simpa [ImportGraph.contains] using hout
        obtain ⟨entered₁, left₁, hgrows₁⟩ := hvisit hg hout hname hmid
        obtain ⟨himports, entered₂, left₂, hgrows₂⟩ := ih _ hgrows₁.consistent hrest
        exact ⟨himports, _, _, hgrows₁.append hgrows₂⟩

/-- A visit of any depth that comes to a graph has entered all that the script leads to. -/
theorem visit_grows (depth : Nat) : r.Visits (r.visit depth) := by
  induction depth with
  | zero =>
    intro g g' p name _ _ _ h
    simp [visit] at h
  | succ depth ih =>
    intro g g' p name hg hp hname h
    obtain ⟨source, added, followed, imports, hsource, hadd, hfollow, hupdate⟩ := r.visit_eq_ok h
    obtain ⟨himports, entered, left, hgrows⟩ := r.follow_grows ih _ [] (hg.add hadd) hfollow
    rw [← r.importsOf_eq hsource] at hgrows
    exact ⟨_, _, hgrows.enter hg hadd hupdate rfl ⟨hname, hsource, rfl, himports⟩⟩

/-- A graph is the complete graph of a root: it holds the scripts that the root leads to through
imports, in the order in which a depth-first walk enters them, with all that there is to know of
each. -/
structure IsGraphOf (root : Path) (g : ImportGraph) : Prop where
  root_eq : g.root = root
  mem_keys_iff : ∀ p, p ∈ g.nodes.keys ↔ Relation.ReflTransGen r.Imports root p
  resolved : ∀ p n, g.node? p = some n → n.path = p ∧ r.Resolved n
  closed : ∀ p n, g.node? p = some n → ∀ q ∈ n.resolvedImports, q ∈ g.nodes.keys
  preorder : ∃ left, DepthFirst r.importsOf ∅ [root] g.nodes.keys left
  root_first : g.nodes.keys.head? = some root
  nodup_names : (g.nodes.values.map (·.name)).Nodup
  frozen : g.frozen = true

/-- A graph that has grown from nothing by a walk from a root is complete once it is frozen. -/
theorem Grows.isGraphOf {root : Path} {g : ImportGraph} {entered left : List Path}
    (h : r.Grows (.empty root) [root] g entered left) : r.IsGraphOf root g.freeze := by
  have hkeys : g.nodes.keys = entered := h.keys_eq
  have hempty : {q | q ∈ (ImportGraph.empty root).nodes.keys} = (∅ : Set Path) := by
    ext q
    simp [ImportGraph.empty, Table.empty, Table.keys]
  have hwalk := h.walk
  rw [hempty] at hwalk
  have hresolved : ∀ p n, g.node? p = some n → n.path = p ∧ r.Resolved n := by
    intro p n hn
    obtain ⟨m, hm, hpath, hres⟩ := h.resolved p (hkeys ▸ Table.mem_keys_of_find? hn)
    obtain rfl := Option.some.inj (hn.symm.trans hm)
    exact ⟨hpath, hres⟩
  have hstep : (fun p q => q ∈ r.importsOf p) = r.Imports := by
    funext p q
    exact propext (r.mem_importsOf_iff p q)
  refine ⟨h.root_eq, fun p => ?_, hresolved, fun p n hn q hq => ?_, ⟨left, ?_⟩, ?_,
    h.consistent.nodup_names, rfl⟩
  · change p ∈ g.nodes.keys ↔ _
    rw [hkeys, hwalk.mem_entered_iff, LeadsTo, hstep]
  · obtain ⟨rfl, hres⟩ := hresolved p n hn
    have hmem : n.path ∈ entered := hkeys ▸ Table.mem_keys_of_find? hn
    rw [hres.imports, List.mem_eraseDups, hres.directives, ← r.importsOf_eq hres.source] at hq
    change q ∈ g.nodes.keys
    rw [hkeys]
    exact (hwalk.next_covered _ hmem q hq).resolve_left (Set.notMem_empty q)
  · change DepthFirst r.importsOf ∅ [root] g.nodes.keys left
    rwa [hkeys]
  · change g.nodes.keys.head? = some root
    rw [hkeys]
    exact hwalk.root_first_last.1

/-- Two scripts that import each other; one of them also imports itself, a file that does not exist
and the other script once more. -/
def knot : Resolver where
  settings := {}
  extractor := .ofList .top
    [(.ofString "/scripts/a", ["b", "a", "gone", "./b"]),
      (.ofString "/scripts/b", ["../scripts/a"])]
  files := ((Snapshot.start .top).learn (.ofString "/scripts/a") (.ok [])
    |>.learn (.ofString "/scripts/b") (.ok [])).fileSystem

end Resolver

end ScriptRunner
