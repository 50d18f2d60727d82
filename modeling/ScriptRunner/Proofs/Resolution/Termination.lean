import Mathlib.Data.Set.Card
import ScriptRunner.Proofs.Locality

/-!
# Resolutions come to an end

A walk goes one step deeper only into a file that is not in the graph yet, so a depth as large as
the number of files is enough: whatever a resolution comes to at that depth, it comes to at every
larger one, however the scripts import each other. What it comes to is never that it is too deep. A
graph holds as many scripts as have been read, each of them read and looked through once.

## Main definitions

* `FileSystem.normalizedFiles` - the normalized paths that lead to files.
* `FileSystem.only` - a file system in which no other paths lead to files.
* `Resolver.Loads` - what a computation loads makes up what its result holds.
* `Resolver.LoadsOnce` - each script of a graph has been read and looked through once.

## Main statements

* `Resolver.resolveWithin_of_ncard_le` - the number of files is enough depth.
* `Resolver.resolveWithin_loads` - a graph holds what has been loaded.
* `Resolver.ends_and_loadsOnce` - resolutions come to an end, and load each script once.
-/

namespace ScriptRunner

namespace FileSystem

/-- The normalized paths that lead to files. -/
def normalizedFiles (fs : FileSystem) : Set Path :=
  {p | fs.HasFile p ∧ ∃ q, fs.normalize q = p}

/-- The capacity of a file system is at least the number of its files. -/
theorem Bounded.ncard_le {fs : FileSystem} (h : fs.Bounded) :
    fs.normalizedFiles.Finite ∧ fs.normalizedFiles.ncard ≤ fs.capacity := by
  obtain ⟨paths, hlength, hpaths⟩ := h
  have hsub : fs.normalizedFiles ⊆ (paths.toFinset : Set Path) := fun p hp => by
    simpa using hpaths p hp.1
  refine ⟨(Finset.finite_toSet _).subset hsub, ?_⟩
  calc fs.normalizedFiles.ncard
    _ ≤ (paths.toFinset : Set Path).ncard := Set.ncard_le_ncard hsub (Finset.finite_toSet _)
    _ = paths.toFinset.card := Set.ncard_coe_finset _
    _ ≤ paths.length := paths.toFinset_card_le
    _ ≤ fs.capacity := hlength

/-- The file system in which no paths but those of a list lead to files. -/
def only (fs : FileSystem) (paths : List Path) : FileSystem where
  cwd := fs.cwd
  isFile p := if fs.HasFile p ∧ p ∉ paths then .ok false else fs.isFile p
  read := fs.read
  capacity := paths.length

theorem bounded_only (fs : FileSystem) (paths : List Path) : (fs.only paths).Bounded := by
  refine ⟨paths, Nat.le_refl _, fun p hp => ?_⟩
  by_contra hmem
  have hfile : (if fs.HasFile p ∧ p ∉ paths then .ok false else fs.isFile p) =
    (.ok true : Except FileFault Bool) := hp
  by_cases h : fs.HasFile p
  · simp [h, hmem] at hfile
  · rw [if_neg fun h' => h h'.1] at hfile
    exact h hfile

end FileSystem

namespace Resolver

variable {r : Resolver}

/-- A resolution asks for normalized paths only, so other files make no difference to it. -/
theorem agreesFrom_only {paths : List Path} (hpaths : ∀ p ∈ r.files.normalizedFiles, p ∈ paths)
    (written : String) : r.AgreesFrom (r.rootPath written) (r.files.only paths) := by
  have hsame : ∀ q, (r.files.only paths).isFile (r.files.normalize q) =
      r.files.isFile (r.files.normalize q) := fun q =>
    if_neg fun ⟨hfile, hmem⟩ => hmem (hpaths _ ⟨hfile, q, rfl⟩)
  exact ⟨rfl, hsame _, fun _ _ => rfl, fun _ _ _ _ => hsame _⟩

theorem outcome_resolve_ne_tooDeep (hfiles : r.files.Bounded) (written : String) :
    (r.resolve written).outcome ≠ .error .tooDeep := fun hdeep => by
  obtain ⟨c, hc⟩ := exists_violation_of_error hfiles hdeep
  exact r.violation?_ne_tooDeep c hc

/-- The number of files is enough depth, and more makes no difference. -/
theorem resolveWithin_of_ncard_le (hfinite : r.files.normalizedFiles.Finite) (written : String) :
    (r.resolveWithin r.files.normalizedFiles.ncard written).outcome ≠ .error .tooDeep ∧
      ∀ depth, r.files.normalizedFiles.ncard ≤ depth →
        r.resolveWithin depth written = r.resolveWithin r.files.normalizedFiles.ncard written := by
  let paths := hfinite.toFinset.toList
  have hpaths : ∀ p ∈ r.files.normalizedFiles, p ∈ paths := fun p hp => by simpa [paths] using hp
  have hlength : (r.files.only paths).capacity = r.files.normalizedFiles.ncard := by
    rw [Set.ncard_eq_toFinset_card _ hfinite]
    exact Finset.length_toList _
  have hagrees := agreesFrom_only hpaths written
  have hfiles := r.files.bounded_only paths
  -- At every depth the walk is that over the files of the list, which are so many.
  have hsame := fun depth => resolveWithin_withFiles hagrees depth
  have hresolve : (r.withFiles (r.files.only paths)).resolve written =
      r.resolveWithin r.files.normalizedFiles.ncard written := by
    rw [resolve_eq_resolveWithin, ← hlength]
    exact hsame _
  refine ⟨hresolve ▸ outcome_resolve_ne_tooDeep hfiles written, fun depth hdepth => ?_⟩
  rw [← hresolve, ← hsame]
  exact (resolve_eq_resolveWithin_of_le (r := r.withFiles (r.files.only paths)) hfiles
    (hlength.trans_le hdepth) written).symm

end Resolver

namespace ResolutionEvent

/-- A script is read, or its directives are looked up. -/
def isLoading : ResolutionEvent → Bool
  | opened _ | examined _ => true
  | _ => false

/-- The path of a script that is read. -/
def opened? : ResolutionEvent → Option Path
  | opened path => some path
  | _ => none

/-- The path of a script whose directives are looked up. -/
def examined? : ResolutionEvent → Option Path
  | examined path => some path
  | _ => none

/-- A script is read, and then its directives are looked up. -/
def loading (path : Path) : List ResolutionEvent := [opened path, examined path]

end ResolutionEvent

/-- The events in which the scripts of a graph have been loaded, in the order of the graph. -/
def ImportGraph.loadings (g : ImportGraph) : List ResolutionEvent :=
  g.nodes.keys.flatMap ResolutionEvent.loading

theorem ImportGraph.loadings_add {g g' : ImportGraph} {n : ScriptNode} (h : g.add n = .ok g') :
    g'.loadings = g.loadings ++ ResolutionEvent.loading n.path := by
  unfold ImportGraph.add at h
  split at h
  · simp at h
  split at h
  · simp at h
  split at h
  · simp at h
  next habsent =>
    obtain rfl := Except.ok.inj h
    have hkeys : (g.store n).nodes.keys = g.nodes.keys ++ [n.path] :=
      Table.keys_insert_of_not_mem n fun hmem =>
        habsent ((Table.contains_iff_mem_keys _ _).2 hmem)
    simp [loadings, hkeys]

theorem ImportGraph.loadings_update {g g' : ImportGraph} {n : ScriptNode}
    (h : g.update n = .ok g') : g'.loadings = g.loadings := by
  obtain ⟨-, ⟨current, hcurrent, -⟩, rfl⟩ := ImportGraph.update_eq_ok h
  exact congrArg (·.flatMap ResolutionEvent.loading)
    (Table.keys_insert_of_mem n (Table.mem_keys_of_find? hcurrent))

namespace Resolver

section

variable {α β : Type} {before : List ResolutionEvent} {x : Resolving α}
  {k : α → List ResolutionEvent}

/-- What has been loaded before a computation, with what it loads, is what its result holds. -/
def Loads (before : List ResolutionEvent) (x : Resolving α) (k : α → List ResolutionEvent) :
    Prop :=
  ∀ a, x.outcome = .ok a → k a = before ++ x.events.filter (·.isLoading)

theorem Loads.bind (h : Loads before x k) {f : α → Resolving β}
    {k' : β → List ResolutionEvent} (hf : ∀ a, x.outcome = .ok a → Loads (k a) (f a) k') :
    Loads before (x >>= f) k' := by
  intro b hb
  obtain ⟨a, ha, hb⟩ := Traced.outcome_bind_eq_ok.1 hb
  rw [hf a ha b hb, h a ha, Traced.bind_of_ok ha, List.filter_append, List.append_assoc]

theorem loads_pure (a : α) : Loads (k a) (pure a) k := by
  intro b hb
  obtain rfl := Except.ok.inj hb
  exact (List.append_nil _).symm

/-- A computation that loads nothing. -/
theorem loads_of_filter_eq_nil (hx : x.events.filter (·.isLoading) = [])
    (hheld : ∀ a, x.outcome = .ok a → k a = before) : Loads before x k := fun a ha => by
  rw [hheld a ha, hx, List.append_nil]

theorem loads_ofExcept {outcome : Except ResolutionFailure α}
    (h : ∀ a, outcome = .ok a → k a = before) : Loads before (.ofExcept outcome) k :=
  loads_of_filter_eq_nil rfl h

end

variable (r : Resolver) {before : List ResolutionEvent} {p : Path}

theorem nameOf_loads : Loads before (r.nameOf p) fun _ => before := by
  refine loads_of_filter_eq_nil ?_ fun _ _ => rfl
  unfold nameOf
  split <;> rfl

theorem isFile_loads : Loads before (r.isFile p) fun _ => before :=
  loads_of_filter_eq_nil rfl fun _ _ => rfl

theorem locate_loads (d : Directive) : Loads before (r.locate p d) fun _ => before := by
  refine r.isFile_loads.bind fun found _ => loads_of_filter_eq_nil ?_ fun _ _ => rfl
  cases found
  · cases r.settings.strictImports <;> rfl
  · rfl

theorem readText_loads : Loads before (r.readText p) fun _ => before ++ [.opened p] :=
  fun _ _ => rfl

theorem directivesOf_loads (text : String) :
    Loads before (r.directivesOf p text) fun _ => before ++ [.examined p] := by
  intro directives _
  have hnotes :
      ((r.extractor p text).notes.map ResolutionEvent.noted).filter (·.isLoading) = [] := by
    simp [ResolutionEvent.isLoading]
  simp only [directivesOf, List.filter_cons, hnotes]
  rfl

theorem follow_loads {visit : ImportGraph → Path → String → Resolving ImportGraph}
    (hvisit : ∀ g q name, Loads g.loadings (visit g q name) (·.loadings)) (ds : List Directive) :
    ∀ g imports, Loads g.loadings (r.follow visit p g imports ds) (·.1.loadings) := by
  induction ds with
  | nil => exact fun g imports => loads_pure (k := fun a => a.1.loadings) (g, imports)
  | cons d ds ih =>
    intro g imports
    rw [follow]
    refine (r.locate_loads d).bind fun found _ => ?_
    cases found with
    | none => exact ih g imports
    | some target =>
      dsimp only
      by_cases hin : g.contains target = true
      · simp only [hin, if_true, pure_bind]
        exact ih g _
      · simp only [hin, Bool.false_eq_true, if_false]
        exact r.nameOf_loads.bind fun name _ => (hvisit g target name).bind fun g' _ => ih g' _

/-- A visit enters the script that it loads, before anything that is loaded below it. -/
theorem visit_loads (depth : Nat) : ∀ g q name,
    Loads g.loadings (r.visit depth g q name) (·.loadings) := by
  induction depth with
  | zero => exact fun g q name g' h => by simp [visit] at h
  | succ depth ih =>
    intro g q name
    rw [visit]
    refine r.readText_loads.bind fun source _ => ?_
    refine (r.directivesOf_loads source).bind fun directives _ => ?_
    refine Loads.bind (k := (·.loadings)) (loads_ofExcept fun added hadded => ?_) fun added _ => ?_
    · rw [ImportGraph.loadings_add (mapError_eq_ok.1 hadded), List.append_assoc]
      rfl
    refine Loads.bind (k := fun _ => added.loadings) (fun _ _ => (List.append_nil _).symm)
      fun _ _ => (r.follow_loads ih directives added []).bind fun followed _ => ?_
    exact loads_ofExcept fun g' hg' => ImportGraph.loadings_update (mapError_eq_ok.1 hg')

/-- A graph holds what the resolution has loaded. -/
theorem resolveWithin_loads (depth : Nat) (written : String) :
    Loads [] (r.resolveWithin depth written) (·.loadings) := by
  unfold resolveWithin
  refine r.nameOf_loads.bind fun name _ => r.isFile_loads.bind fun found _ => ?_
  cases found with
  | false => exact fun g h => by simp at h
  | true =>
    refine (r.visit_loads depth (.empty _) _ name).bind fun g _ => ?_
    exact loads_of_filter_eq_nil rfl fun g' hg' => by
      obtain rfl := Except.ok.inj hg'
      rfl

/-- Each script of a graph has been read once, and looked through once right after that. Nothing
else has been read or looked through. -/
structure LoadsOnce (events : List ResolutionEvent) (g : ImportGraph) : Prop where
  loadings : events.filter (·.isLoading) = g.nodes.keys.flatMap ResolutionEvent.loading
  opened : events.filterMap ResolutionEvent.opened? = g.nodes.keys
  examined : events.filterMap ResolutionEvent.examined? = g.nodes.keys
  nodup : g.nodes.keys.Nodup
  size : g.nodes.keys.length = g.size

/-- Events are picked from those that load scripts. -/
theorem filterMap_filter_isLoading {f : ResolutionEvent → Option Path}
    (hf : ∀ event, event.isLoading = false → f event = none) (events : List ResolutionEvent) :
    (events.filter (·.isLoading)).filterMap f = events.filterMap f := by
  induction events with
  | nil => rfl
  | cons event events ih =>
    cases h : event.isLoading with
    | true => rw [List.filter_cons_of_pos h, List.filterMap_cons, List.filterMap_cons, ih]
    | false =>
      rw [List.filter_cons_of_neg (by simp [h]), ih, List.filterMap_cons_none (hf event h)]

/-- Each script is loaded with one event of a kind. -/
theorem filterMap_loadings {f : ResolutionEvent → Option Path}
    (hf : ∀ p, (ResolutionEvent.loading p).filterMap f = [p]) (paths : List Path) :
    (paths.flatMap ResolutionEvent.loading).filterMap f = paths := by
  simp [List.filterMap_flatMap, hf]

theorem loadsOnce_of_loads {x : Resolving ImportGraph} (hx : Loads [] x (·.loadings))
    {g : ImportGraph} (hg : x.outcome = .ok g) : LoadsOnce x.events g := by
  have hloadings : x.events.filter (·.isLoading) =
      g.nodes.keys.flatMap ResolutionEvent.loading := (hx g hg).symm
  refine ⟨hloadings, ?_, ?_, g.nodes.distinct, by simp [Table.keys, ImportGraph.size, Table.size]⟩
  · rw [← filterMap_filter_isLoading (fun event h => by cases event <;> simp_all
      [ResolutionEvent.isLoading, ResolutionEvent.opened?]), hloadings]
    exact filterMap_loadings (fun _ => rfl) _
  · rw [← filterMap_filter_isLoading (fun event h => by cases event <;> simp_all
      [ResolutionEvent.isLoading, ResolutionEvent.examined?]), hloadings]
    exact filterMap_loadings (fun _ => rfl) _

/-- If only finitely many normalized paths lead to files, then a resolution comes to an end,
whatever imports what: there is one computation that it is at every depth from the number of files
on. It is never too deep, and if it comes to a graph, then each script of the graph has been loaded
once. -/
theorem ends_and_loadsOnce (written : String) (hfinite : r.files.normalizedFiles.Finite) :
    ∃ run : Resolving ImportGraph,
      (∀ depth, r.files.normalizedFiles.ncard ≤ depth → r.resolveWithin depth written = run) ∧
      (r.files.normalizedFiles.ncard ≤ r.files.capacity → r.resolve written = run) ∧
      run.outcome ≠ .error .tooDeep ∧
      ∀ g, run.outcome = .ok g → LoadsOnce run.events g := by
  obtain ⟨hdeep, hmore⟩ := resolveWithin_of_ncard_le hfinite written
  refine ⟨_, hmore, fun hcapacity => ?_, hdeep, fun g hg => ?_⟩
  · rw [resolve_eq_resolveWithin, hmore _ hcapacity]
  · exact loadsOnce_of_loads (r.resolveWithin_loads _ written) hg

/-- The walk through two scripts that import each other, and one of them itself and the other twice,
ends and loads each of them once. -/
theorem ends_knot : knot.files.normalizedFiles.Finite ∧
    ∃ run, (∀ depth, knot.files.normalizedFiles.ncard ≤ depth →
      knot.resolveWithin depth "scripts/a" = run) ∧ knot.resolve "scripts/a" = run ∧
      ∃ g, run.outcome = .ok g ∧ LoadsOnce run.events g ∧ g.size = 2 := by
  have hfiles : knot.files.Bounded := Snapshot.bounded_fileSystem _
  obtain ⟨hfinite, hcard⟩ := hfiles.ncard_le
  obtain ⟨run, hmore, hresolve, -, hloads⟩ := ends_and_loadsOnce knot "scripts/a" hfinite
  have hsize : (knot.resolve "scripts/a").outcome.toOption.map (·.size) = some 2 := by
    decide +kernel
  obtain ⟨g, hg, hsize⟩ := Option.map_eq_some_iff.1 hsize
  have hg := toOption_eq_some_iff.1 hg
  refine ⟨hfinite, run, hmore, hresolve hcard, g, ?_⟩
  rw [← hresolve hcard]
  have hloads := hloads g (by rw [← hresolve hcard, hg])
  rw [← hresolve hcard] at hloads
  exact ⟨hg, hloads, hsize⟩

end Resolver

end ScriptRunner
