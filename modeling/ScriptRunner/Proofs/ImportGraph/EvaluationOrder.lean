import ScriptRunner.Proofs.DepthFirst
import ScriptRunner.Proofs.ImportGraph.Changes
import ScriptRunner.Proofs.Outcomes
import ScriptRunner.Request

/-!
# The order of evaluation

The order of evaluation is the order in which a depth-first walk from the root leaves the scripts.
So it lists what the root reaches, each script once and the root last, and an import stands before
its importer unless it leads back to it.

## Main definitions

* `ImportGraph.Imports`, `ImportGraph.Reaches` - one script imports another, or leads to it.
* `ImportGraph.Closed` - nothing that the root reaches is missing.

## Main statements

* `ImportGraph.evaluationOrder_cases` - the order, or a missing script that the root reaches.
* `Request.ofGraph_cases` - the request for a graph, or the reason why there is none.
* `Request.ofGraph_in_dependency_order` - the units of a request.
-/

namespace ScriptRunner

namespace ImportGraph

variable (g : ImportGraph)

/-- The script at a path imports another path. -/
def Imports (p q : Path) : Prop :=
  ∃ n, g.node? p = some n ∧ q ∈ n.resolvedImports

/-- A path leads to another through imports. -/
def Reaches : Path → Path → Prop :=
  Relation.ReflTransGen g.Imports

/-- Nothing that the root reaches is missing: the root is a script, and so is every import of a
script that the root reaches. -/
structure Closed : Prop where
  root : ∃ n, g.node? g.root = some n
  imports : ∀ p q, g.Reaches g.root p → g.Imports p q → ∃ n, g.node? q = some n

/-- The imports of the script at a path. -/
def importPaths (p : Path) : List Path :=
  ((g.node? p).map (·.resolvedImports)).getD []

theorem mem_importPaths_iff (p q : Path) : q ∈ g.importPaths p ↔ g.Imports p q := by
  unfold importPaths Imports
  cases g.node? p <;> simp

theorem leadsTo_importPaths : LeadsTo g.importPaths = g.Reaches := by
  have hstep : (fun p q => q ∈ g.importPaths p) = g.Imports := by
    funext p q
    exact propext (g.mem_importPaths_iff p q)
  rw [LeadsTo, hstep, Reaches]

/-- The imports of a node are looked up, or one of them is missing. -/
theorem importsOf_cases (n : ScriptNode) :
    (∃ imports, g.importsOf n = .ok imports ∧
      List.Forall₂ (fun q m => g.node? q = some m) n.resolvedImports imports) ∨
    ∃ q ∈ n.resolvedImports, g.node? q = none ∧ g.importsOf n = .error (.absent q) := by
  unfold importsOf
  induction n.resolvedImports with
  | nil => exact .inl ⟨[], rfl, .nil⟩
  | cons q rest ih =>
    rw [List.mapM_cons]
    cases hq : g.node? q with
    | none => exact .inr ⟨q, List.mem_cons_self, hq, by simp [node, hq, bind, Except.bind]⟩
    | some m =>
      rcases ih with ⟨imports, hok, hall⟩ | ⟨p, hp, hnone, herror⟩
      · exact .inl ⟨m :: imports, by simp [node, hq, hok, bind, Except.bind, pure, Except.pure],
          .cons hq hall⟩
      · exact .inr ⟨p, List.mem_cons_of_mem _ hp, hnone,
          by simp [node, hq, herror, bind, Except.bind]⟩

section Steps

variable {g} {visited : List Path} {p : Path}

theorem walk_leave (visited : List Path) (done : List ScriptNode) (n : ScriptNode)
    (steps : List Step) :
    g.walk visited done (.leave n :: steps) = g.walk visited (done ++ [n]) steps := by
  rw [walk]

theorem walk_enter_of_mem (hp : p ∈ visited) (done : List ScriptNode) (steps : List Step) :
    g.walk visited done (.enter p :: steps) = g.walk visited done steps := by
  rw [walk, if_pos hp]

theorem walk_enter_of_none (hp : p ∉ visited) (hnone : g.node? p = none)
    (done : List ScriptNode) (steps : List Step) :
    g.walk visited done (.enter p :: steps) = .error (.absent p) := by
  rw [walk, if_neg hp]
  split
  · rfl
  next n hn => simp [hnone] at hn

theorem walk_enter_of_error (hp : p ∉ visited) {n : ScriptNode} (hn : g.node? p = some n)
    {fault : GraphFault} (himports : g.importsOf n = .error fault) (done : List ScriptNode)
    (steps : List Step) : g.walk visited done (.enter p :: steps) = .error fault := by
  rw [walk, if_neg hp]
  split
  next hnone => simp [hnone] at hn
  next m hm =>
    obtain rfl := Option.some.inj (hn.symm.trans hm)
    rw [himports]

theorem walk_enter_of_ok (hp : p ∉ visited) {n : ScriptNode} (hn : g.node? p = some n)
    {imports : List ScriptNode} (himports : g.importsOf n = .ok imports) (done : List ScriptNode)
    (steps : List Step) :
    g.walk visited done (.enter p :: steps) =
      g.walk (p :: visited) done (n.resolvedImports.map .enter ++ .leave n :: steps) := by
  rw [walk, if_neg hp]
  split
  next hnone => simp [hnone] at hn
  next m hm =>
    obtain rfl := Option.some.inj (hn.symm.trans hm)
    rw [himports]

end Steps

/-- The walk passes through an agenda: it enters scripts whose imports all exist, leaves them, and
goes on with the steps behind the agenda. -/
structure PassesThrough (visited agenda entered left : List Path) : Prop where
  walk : DepthFirst g.importPaths {q | q ∈ visited} agenda entered left
  complete : ∀ p ∈ entered, ∃ n imports, g.node? p = some n ∧ g.importsOf n = .ok imports
  walk_eq : ∀ done steps, g.walk visited done (agenda.map .enter ++ steps) =
    g.walk (entered.reverse ++ visited) (done ++ left.filterMap g.node?) steps

/-- The walk breaks off in an agenda, at a path that the agenda leads to and that is missing. -/
structure BreaksOff (visited agenda : List Path) (missing : Path) : Prop where
  reached : ∃ p ∈ agenda, g.Reaches p missing
  absent : g.node? missing = none
  walk_eq : ∀ done steps,
    g.walk visited done (agenda.map .enter ++ steps) = .error (.absent missing)

section Stretches

variable {g} {visited agenda entered left : List Path} {p missing : Path} {n : ScriptNode}
  {imports : List ScriptNode}

theorem PassesThrough.nil (visited : List Path) : g.PassesThrough visited [] [] [] :=
  ⟨.done _, by simp, by simp⟩

theorem PassesThrough.skip (hp : p ∈ visited) (h : g.PassesThrough visited agenda entered left) :
    g.PassesThrough visited (p :: agenda) entered left := by
  refine ⟨.skip hp h.walk, h.complete, fun done steps => ?_⟩
  rw [List.map_cons, List.cons_append, walk_enter_of_mem hp, h.walk_eq]

theorem PassesThrough.enter {below belowLeft after afterLeft : List Path} (hp : p ∉ visited)
    (hn : g.node? p = some n) (himports : g.importsOf n = .ok imports)
    (hbelow : g.PassesThrough (p :: visited) n.resolvedImports below belowLeft)
    (hafter : g.PassesThrough (below.reverse ++ p :: visited) agenda after afterLeft) :
    g.PassesThrough visited (p :: agenda) (p :: (below ++ after))
      (belowLeft ++ p :: afterLeft) := by
  have hnext : g.importPaths p = n.resolvedImports := by simp [importPaths, hn]
  refine ⟨?_, fun q hq => ?_, fun done steps => ?_⟩
  · -- The list of visited scripts grows at its front, the set of the walk by unions.
    have hinsert : {q | q ∈ p :: visited} = insert p {q | q ∈ visited} := by
      ext q
      simp
    have hunion : {q | q ∈ below.reverse ++ p :: visited} =
        insert p {q | q ∈ visited} ∪ {q | q ∈ below} := by
      ext q
      simp only [List.mem_append, List.mem_reverse, List.mem_cons, Set.mem_ofPred_eq,
        Set.mem_union, Set.mem_insert_iff]
      exact or_comm
    have hwalkBelow := hbelow.walk
    have hwalkAfter := hafter.walk
    rw [hinsert, ← hnext] at hwalkBelow
    rw [hunion] at hwalkAfter
    exact .enter hp hwalkBelow hwalkAfter
  · rcases List.mem_cons.1 hq with rfl | hq
    · exact ⟨n, imports, hn, himports⟩
    · exact (List.mem_append.1 hq).elim (hbelow.complete q) (hafter.complete q)
  · rw [List.map_cons, List.cons_append, walk_enter_of_ok hp hn himports, hbelow.walk_eq,
      walk_leave, hafter.walk_eq]
    simp [hn]

theorem BreaksOff.skip (hp : p ∈ visited) (h : g.BreaksOff visited agenda missing) :
    g.BreaksOff visited (p :: agenda) missing := by
  obtain ⟨q, hq, hreach⟩ := h.reached
  refine ⟨⟨q, List.mem_cons_of_mem p hq, hreach⟩, h.absent, fun done steps => ?_⟩
  rw [List.map_cons, List.cons_append, walk_enter_of_mem hp, h.walk_eq]

theorem BreaksOff.ofAbsent (hp : p ∉ visited) (hnone : g.node? p = none) :
    g.BreaksOff visited (p :: agenda) p :=
  ⟨⟨p, List.mem_cons_self, .refl⟩, hnone, fun _ _ => walk_enter_of_none hp hnone _ _⟩

theorem BreaksOff.ofImport (hp : p ∉ visited) (hn : g.node? p = some n)
    (hmem : missing ∈ n.resolvedImports) (hnone : g.node? missing = none)
    (himports : g.importsOf n = .error (.absent missing)) :
    g.BreaksOff visited (p :: agenda) missing :=
  ⟨⟨p, List.mem_cons_self, .single ⟨n, hn, hmem⟩⟩, hnone,
    fun _ _ => walk_enter_of_error hp hn himports _ _⟩

theorem BreaksOff.below (hp : p ∉ visited) (hn : g.node? p = some n)
    (himports : g.importsOf n = .ok imports)
    (h : g.BreaksOff (p :: visited) n.resolvedImports missing) :
    g.BreaksOff visited (p :: agenda) missing := by
  obtain ⟨q, hq, hreach⟩ := h.reached
  refine ⟨⟨p, List.mem_cons_self, .head ⟨n, hn, hq⟩ hreach⟩, h.absent, fun done steps => ?_⟩
  rw [List.map_cons, List.cons_append, walk_enter_of_ok hp hn himports, h.walk_eq]

theorem BreaksOff.after (hp : p ∉ visited) (hn : g.node? p = some n)
    (himports : g.importsOf n = .ok imports)
    (hbelow : g.PassesThrough (p :: visited) n.resolvedImports entered left)
    (h : g.BreaksOff (entered.reverse ++ p :: visited) agenda missing) :
    g.BreaksOff visited (p :: agenda) missing := by
  obtain ⟨q, hq, hreach⟩ := h.reached
  refine ⟨⟨q, List.mem_cons_of_mem p hq, hreach⟩, h.absent, fun done steps => ?_⟩
  rw [List.map_cons, List.cons_append, walk_enter_of_ok hp hn himports, hbelow.walk_eq, walk_leave,
    h.walk_eq]

end Stretches

/-- The walk passes through every agenda or breaks off in it. The induction is on a bound of the
steps that the agenda can still bring in. -/
theorem passesThrough_or_breaksOff (bound : Nat) :
    ∀ visited agenda : List Path, g.stepsLeft visited g.nodes.keys + agenda.length ≤ bound →
      (∃ entered left, g.PassesThrough visited agenda entered left) ∨
        ∃ missing, g.BreaksOff visited agenda missing := by
  induction bound with
  | zero =>
    intro visited agenda hbound
    obtain rfl : agenda = [] := List.length_eq_zero_iff.1 (by omega)
    exact .inl ⟨[], [], .nil visited⟩
  | succ bound ih =>
    intro visited agenda hbound
    cases agenda with
    | nil => exact .inl ⟨[], [], .nil visited⟩
    | cons p agenda =>
    rw [List.length_cons] at hbound
    by_cases hp : p ∈ visited
    · rcases ih visited agenda (by omega) with ⟨entered, left, h⟩ | ⟨missing, h⟩
      · exact .inl ⟨entered, left, h.skip hp⟩
      · exact .inr ⟨missing, h.skip hp⟩
    cases hn : g.node? p with
    | none => exact .inr ⟨p, .ofAbsent hp hn⟩
    | some n =>
    rcases g.importsOf_cases n with ⟨imports, himports, -⟩ | ⟨q, hq, hnone, himports⟩
    · -- Entering the script takes its own steps away, which pays for the agenda of its imports.
      have hfewer := g.stepsLeft_cons_visited hn hp (mem_keys_of_node? hn)
      rcases ih (p :: visited) n.resolvedImports (by omega) with
        ⟨below, belowLeft, hbelow⟩ | ⟨missing, h⟩
      · have hsub : ∀ q ∈ visited, q ∈ below.reverse ++ p :: visited :=
          fun q hq => List.mem_append_right _ (List.mem_cons_of_mem p hq)
        have hle := g.stepsLeft_le_of_subset hsub g.nodes.keys
        rcases ih (below.reverse ++ p :: visited) agenda (by omega) with
          ⟨after, afterLeft, hafter⟩ | ⟨missing, h⟩
        · exact .inl ⟨_, _, .enter hp hn himports hbelow hafter⟩
        · exact .inr ⟨missing, .after hp hn himports hbelow h⟩
      · exact .inr ⟨missing, .below hp hn himports h⟩
    · exact .inr ⟨q, .ofImport hp hn hq hnone himports⟩

/-- The walk from the root leaves scripts whose imports all exist, or breaks off at a path that the
root leads to and that is missing. -/
theorem evaluationOrder_cases :
    (∃ entered left order, DepthFirst g.importPaths ∅ [g.root] entered left ∧
      List.Forall₂ (fun p n => g.node? p = some n) left order ∧
      (∀ n ∈ order, ∃ imports, g.importsOf n = .ok imports) ∧ g.evaluationOrder = .ok order) ∨
    ∃ missing, g.Reaches g.root missing ∧ g.node? missing = none ∧
      g.evaluationOrder = .error (.absent missing) := by
  rcases g.passesThrough_or_breaksOff _ [] [g.root] le_rfl with ⟨entered, left, h⟩ | ⟨missing, h⟩
  · refine .inl ⟨entered, left, left.filterMap g.node?, by simpa using h.walk, ?_, ?_, ?_⟩
    · have hcomplete : ∀ p ∈ left, ∃ n, g.node? p = some n := fun p hp => by
        obtain ⟨n, -, hn, -⟩ := h.complete p (h.walk.perm.mem_iff.2 hp)
        exact ⟨n, hn⟩
      clear h
      induction left with
      | nil => exact .nil
      | cons p left ih =>
        obtain ⟨n, hn⟩ := hcomplete p List.mem_cons_self
        rw [List.filterMap_cons_some hn]
        exact .cons hn (ih fun q hq => hcomplete q (List.mem_cons_of_mem p hq))
    · intro n hn
      obtain ⟨p, hp, hpn⟩ := List.mem_filterMap.1 hn
      obtain ⟨m, imports, hm, himports⟩ := h.complete p (h.walk.perm.mem_iff.2 hp)
      obtain rfl := Option.some.inj (hpn.symm.trans hm)
      exact ⟨imports, himports⟩
    · have heq := h.walk_eq [] []
      rw [walk] at heq
      simpa [evaluationOrder] using heq
  · obtain ⟨p, hp, hreach⟩ := h.reached
    rw [List.mem_singleton.1 hp] at hreach
    exact .inr ⟨missing, hreach, h.absent, by simpa [evaluationOrder] using h.walk_eq [] []⟩

/-- In a closed graph everything that the root reaches is there. -/
theorem Closed.exists_node? {g : ImportGraph} (h : g.Closed) {p : Path}
    (hp : g.Reaches g.root p) : ∃ n, g.node? p = some n := by
  cases hp with
  | refl => exact h.root
  | tail hreach hstep => exact h.imports _ _ hreach hstep

end ImportGraph

/-- The units of a request in an order of evaluation: they are the scripts that the root of a graph
reaches, each one once and the root last, and an import stands before its importer unless it leads
back to it. -/
structure InDependencyOrder (g : ImportGraph) (units : List ScriptUnit) : Prop where
  exists_node? : ∀ u ∈ units, ∃ n, g.node? u.path = some n ∧ u = .ofNode n
  mem_paths_iff : ∀ p, p ∈ units.map (·.path) ↔ g.Reaches g.root p
  nodup_paths : (units.map (·.path)).Nodup
  root_last : (units.map (·.path)).getLast? = some g.root
  before_or_leads_back : ∀ p q, g.Reaches g.root p → g.Imports p q →
    List.Sublist [q, p] (units.map (·.path)) ∨ g.Reaches q p

/-- No script that the root of a graph reaches leads back to itself. -/
def ImportGraph.Acyclic (g : ImportGraph) : Prop :=
  ∀ p, g.Reaches g.root p → ¬ Relation.TransGen g.Imports p p

/-- A graph has no cycles if every script has a higher rank than its imports. -/
theorem ImportGraph.acyclic_of_rank {g : ImportGraph} (rank : Path → Nat)
    (h : ∀ entry ∈ g.nodes.entries, ∀ q ∈ entry.2.resolvedImports, rank q < rank entry.1) :
    g.Acyclic := by
  have hpath : ∀ p q, Relation.TransGen g.Imports p q → rank q < rank p := fun p q hpq => by
    induction hpq with
    | single hstep =>
      obtain ⟨n, hn, hq⟩ := hstep
      exact h _ ((g.node?_eq_some_iff _ n).1 hn) _ hq
    | tail _ hstep ih =>
      obtain ⟨n, hn, hq⟩ := hstep
      exact (h _ ((g.node?_eq_some_iff _ n).1 hn) _ hq).trans ih
  exact fun p _ hcycle => lt_irrefl _ (hpath p p hcycle)

/-- Without cycles every import stands before its importer. -/
theorem InDependencyOrder.before {g : ImportGraph} {units : List ScriptUnit}
    (h : InDependencyOrder g units) (hacyclic : g.Acyclic) {p q : Path}
    (hp : g.Reaches g.root p) (hpq : g.Imports p q) :
    List.Sublist [q, p] (units.map (·.path)) := by
  rcases h.before_or_leads_back p q hp hpq with hbefore | hback
  · exact hbefore
  · exact absurd (Relation.TransGen.head' hpq hback) (hacyclic p hp)

theorem mem_of_sublist_pair {α : Type} {xs ys : List α} (hnodup : (xs ++ ys).Nodup) {a b : α}
    (h : List.Sublist [a, b] (xs ++ ys)) (hb : b ∈ xs) : a ∈ xs := by
  obtain ⟨l₁, l₂, heq, hxs, hys⟩ := List.sublist_append_iff.1 h
  -- The second element of the pair is taken from `xs`, so the first one is too.
  have hnot : b ∉ l₂ := fun hmem =>
    (List.nodup_append.1 hnodup).2.2 b hb b (hys.subset hmem) rfl
  rcases l₁ with _ | ⟨c, l₁⟩
  · obtain rfl : [a, b] = l₂ := heq
    simp at hnot
  · obtain ⟨rfl, -⟩ := List.cons.inj heq
    exact hxs.subset List.mem_cons_self

/-- Without cycles a first part of the order holds all that its scripts lead to. -/
theorem InDependencyOrder.mem_of_reaches {g : ImportGraph} {units : List ScriptUnit}
    (h : InDependencyOrder g units) (hacyclic : g.Acyclic) {first rest : List Path}
    (hpaths : units.map (·.path) = first ++ rest) {p q : Path} (hp : p ∈ first)
    (hpq : g.Reaches p q) : q ∈ first := by
  have hnodup := h.nodup_paths
  rw [hpaths] at hnodup
  induction hpq with
  | refl => exact hp
  | tail _ hstep ih =>
    have hreached := (h.mem_paths_iff _).1 (hpaths ▸ List.mem_append_left rest ih)
    have hbefore := h.before hacyclic hreached hstep
    rw [hpaths] at hbefore
    exact mem_of_sublist_pair hnodup hbefore ih

/-- The units of an order have distinct names. -/
theorem InDependencyOrder.nodup_names {g : ImportGraph} (hg : g.Consistent)
    {units : List ScriptUnit} (h : InDependencyOrder g units) : (units.map (·.name)).Nodup := by
  refine (List.Nodup.of_map _ h.nodup_paths).map_on fun u hu v hv huv => ?_
  obtain ⟨m, hm, rfl⟩ := h.exists_node? u hu
  obtain ⟨n, hn, rfl⟩ := h.exists_node? v hv
  obtain rfl := Option.some.inj (hm.symm.trans (hg.eq_of_name_eq hm hn huv ▸ hn))
  rfl

namespace Request

open ImportGraph

/-- A request lists the scripts that a walk from the root of a graph leaves, in that order, and the
names of the imports of each. -/
structure Follows (g : ImportGraph) (left : List Path) (r : Request) : Prop where
  walk : ∃ entered, DepthFirst g.importPaths ∅ [g.root] entered left
  units : List.Forall₂ (fun p u => ∃ n, g.node? p = some n ∧ u = ScriptUnit.ofNode n) left r.units
  dependencies : ∃ entries, r.dependencies = .ofList entries ∧
    List.Forall₂ (fun p entry => ∃ n, g.node? p = some n ∧ dependency g n = .ok entry) left entries

/-- The request for a frozen graph follows a walk from the root, or the walk meets a path that is
missing. -/
theorem ofGraph_cases {g : ImportGraph} (hfrozen : g.frozen = true) :
    (∃ left r, ofGraph g = .ok r ∧ r.Follows g left) ∨
    ∃ missing, g.Reaches g.root missing ∧ g.node? missing = none ∧
      ofGraph g = .error (.graph (.absent missing)) := by
  rcases g.evaluationOrder_cases with
    ⟨entered, left, order, hwalk, hnodes, himports, horder⟩ | ⟨missing, hreach, hnone, horder⟩
  · -- The root is left last, so it is the last script of the order.
    obtain ⟨others, rfl⟩ := List.getLast?_eq_some_iff.1 hwalk.root_first_last.2
    obtain ⟨scripts, n, rfl, -, hn⟩ := forall₂_concat_left hnodes
    have hroot : g.rootNode = .ok n := by simp [rootNode, node, hn]
    obtain ⟨entries, hentries⟩ := exists_mapM_eq_ok (f := dependency g) fun m hm => by
      obtain ⟨imports, hm⟩ := himports m hm
      exact ⟨(m.name, imports.map (·.name)),
        by simp [dependency, hm, bind, Except.bind, pure, Except.pure]⟩
    refine .inl ⟨others ++ [g.root], ⟨.ofNode n, scripts.map .ofNode, .ofList entries⟩, ?_,
      ⟨entered, hwalk⟩, ?_, entries, rfl, ?_⟩
    · simp [ofGraph, hfrozen, hroot, horder, hentries]
    · have hunits : Request.units ⟨.ofNode n, scripts.map .ofNode, .ofList entries⟩ =
          (scripts ++ [n]).map .ofNode := by simp [units]
      rw [hunits, List.forall₂_map_right_iff]
      exact hnodes.imp fun p m hm => ⟨m, hm, rfl⟩
    · exact forall₂_trans hnodes (mapM_eq_ok_iff.1 hentries)
  · refine .inr ⟨missing, hreach, hnone, ?_⟩
    cases hn : g.node? g.root with
    | some n => simp [ofGraph, hfrozen, rootNode, node, hn, horder]
    | none =>
      -- The walk breaks off at the root itself.
      have hroot : g.evaluationOrder = .error (.absent g.root) :=
        walk_enter_of_none List.not_mem_nil hn [] []
      rw [hroot] at horder
      simpa [ofGraph, hfrozen, rootNode, node, hn] using horder

/-- A walk from the root leaves what the root leads to. -/
theorem Follows.mem_left_iff {g : ImportGraph} {left : List Path} {r : Request}
    (h : r.Follows g left) (p : Path) : p ∈ left ↔ g.Reaches g.root p := by
  obtain ⟨entered, hwalk⟩ := h.walk
  rw [← hwalk.perm.mem_iff, hwalk.mem_entered_iff, leadsTo_importPaths]

/-- The units of a request that follows a walk are in an order of evaluation. -/
theorem Follows.inDependencyOrder {g : ImportGraph} (hg : g.Consistent) {left : List Path}
    {r : Request} (h : r.Follows g left) : InDependencyOrder g r.units := by
  have hpaths : r.units.map (·.path) = left := by
    refine Eq.symm (List.forall₂_eq_eq_eq ▸ List.forall₂_map_right_iff.2 ?_)
    exact h.units.imp fun p u ⟨n, hn, hu⟩ => by rw [hu, ScriptUnit.ofNode, hg.path_of_node? hn]
  obtain ⟨entered, hwalk⟩ := h.walk
  refine ⟨fun u hu => ?_, ?_, ?_, ?_, fun p q hp hpq => ?_⟩
  · obtain ⟨p, -, n, hn, rfl⟩ := exists_of_forall₂_right h.units hu
    exact ⟨n, by rwa [ScriptUnit.ofNode, hg.path_of_node? hn], rfl⟩
  · rw [hpaths]
    exact h.mem_left_iff
  · rw [hpaths]
    exact hwalk.perm.nodup_iff.1 hwalk.nodup_entered
  · rw [hpaths]
    exact hwalk.root_first_last.2
  · rw [hpaths]
    have hback := hwalk.left_before_or_leads_back ((h.mem_left_iff p).2 hp)
      ((g.mem_importPaths_iff p q).2 hpq)
    rwa [leadsTo_importPaths] at hback

/-- The entries of the direct imports stand beside the scripts that the walk leaves. -/
theorem Follows.entries_dependencies {g : ImportGraph} (hg : g.Consistent) {left : List Path}
    {r : Request} (h : r.Follows g left) :
    List.Forall₂ (fun p entry => ∃ n, g.node? p = some n ∧ dependency g n = .ok entry) left
      r.dependencies.entries ∧ r.dependencies.keys = r.units.map (·.name) := by
  obtain ⟨entries, hentries, hall⟩ := h.dependencies
  have hnames : entries.map Prod.fst = r.units.map (·.name) := by
    refine map_eq_map_of_forall₂ hall h.units ?_
    rintro p entry u ⟨m, hm, hentry⟩ ⟨n, hn, rfl⟩
    obtain rfl := Option.some.inj (hm.symm.trans hn)
    obtain ⟨imports, -, hentry⟩ := bind_eq_ok hentry
    obtain rfl := Except.ok.inj hentry
    rfl
  have hnodup := (h.inDependencyOrder hg).nodup_names hg
  rw [← hnames] at hnodup
  rw [Table.keys, hentries, Table.entries_ofList hnodup]
  exact ⟨hall, hnames⟩

/-- The direct imports are given for exactly the units, in their order. -/
theorem Follows.keys_dependencies {g : ImportGraph} (hg : g.Consistent) {left : List Path}
    {r : Request} (h : r.Follows g left) : r.dependencies.keys = r.units.map (·.name) :=
  (h.entries_dependencies hg).2

/-- The direct imports of a unit are given by their names, in the order of its node. -/
theorem Follows.find?_dependencies {g : ImportGraph} (hg : g.Consistent) {left : List Path}
    {r : Request} (h : r.Follows g left) {p : Path} (hp : p ∈ left) {n : ScriptNode}
    (hn : g.node? p = some n) :
    ∃ names, r.dependencies.find? n.name = some names ∧
      List.Forall₂ (fun q name => ∃ m, g.node? q = some m ∧ m.name = name) n.resolvedImports
        names := by
  have hall := (h.entries_dependencies hg).1
  obtain ⟨⟨name, names⟩, hmem, m, hm, hentry⟩ := exists_of_forall₂_right hall.flip hp
  obtain rfl := Option.some.inj (hn.symm.trans hm)
  obtain ⟨imports, himports, hentry⟩ := bind_eq_ok hentry
  obtain ⟨rfl, rfl⟩ := Prod.mk.inj (Except.ok.inj hentry)
  refine ⟨_, (Table.find?_eq_some_iff _ _ _).2 hmem, ?_⟩
  rw [List.forall₂_map_right_iff]
  refine (mapM_eq_ok_iff.1 himports).imp fun q m hm => ⟨m, ?_, rfl⟩
  unfold node at hm
  split at hm
  next m' hm' => rw [hm', Except.ok.inj hm]
  next => simp at hm

/-- The request for a complete graph lists what the root reaches in an order of evaluation. There is
no request for a graph in which something is missing that the root reaches. -/
theorem ofGraph_in_dependency_order {g : ImportGraph} (hbuilt : g.Built)
    (hfrozen : g.frozen = true) :
    (g.Closed → ∃ r, ofGraph g = .ok r ∧ InDependencyOrder g r.units ∧
      (g.Acyclic → ∀ p q, g.Reaches g.root p → g.Imports p q →
        List.Sublist [q, p] (r.units.map (·.path)))) ∧
    (¬ g.Closed → ∃ p, g.Reaches g.root p ∧ g.node? p = none ∧
      ofGraph g = .error (.graph (.absent p))) := by
  have hg := hbuilt.consistent
  rcases ofGraph_cases hfrozen with ⟨left, r, hr, hfollows⟩ | ⟨missing, hreach, hnone, herror⟩
  · have horder := hfollows.inDependencyOrder hg
    refine ⟨fun _ => ⟨r, hr, horder, fun hacyclic p q => horder.before hacyclic⟩, fun hopen => ?_⟩
    have hnodes : ∀ p, g.Reaches g.root p → ∃ n, g.node? p = some n := fun p hp => by
      obtain ⟨u, hu, rfl⟩ := List.mem_map.1 ((horder.mem_paths_iff p).2 hp)
      obtain ⟨n, hn, -⟩ := horder.exists_node? u hu
      exact ⟨n, hn⟩
    exact absurd ⟨hnodes _ .refl, fun p q hp hpq => hnodes q (hp.tail hpq)⟩ hopen
  · refine ⟨fun hclosed => ?_, fun _ => ⟨missing, hreach, hnone, herror⟩⟩
    obtain ⟨n, hn⟩ := hclosed.exists_node? hreach
    simp [hnone] at hn

/-- Two scripts that import each other; the root also imports itself, and a script that nothing
imports stands beside them. -/
def ring : ImportGraph :=
  List.foldl attempt (.empty (.ofString "/scripts/a"))
    [.add ⟨.ofString "/scripts/a", "A", "", [], [.ofString "/scripts/b", .ofString "/scripts/a"]⟩,
      .add ⟨.ofString "/scripts/b", "B", "", [], [.ofString "/scripts/a"]⟩,
      .add ⟨.ofString "/scripts/c", "C", "", [], []⟩, .freeze]

theorem ofGraph_ring : ring.Built ∧ ring.frozen = true ∧
    ∃ r, ofGraph ring = .ok r ∧ InDependencyOrder ring r.units ∧
      r.units.map (·.path) = [.ofString "/scripts/b", .ofString "/scripts/a"] := by
  have hbuilt : ring.Built := ⟨_, _, rfl⟩
  have hfrozen : ring.frozen = true := by decide +kernel
  have hpaths : (ofGraph ring).toOption.map (·.units.map (·.path)) =
      some [.ofString "/scripts/b", .ofString "/scripts/a"] := by decide +kernel
  have horder := ofGraph_in_dependency_order hbuilt hfrozen
  refine ⟨hbuilt, hfrozen, ?_⟩
  by_cases hclosed : ring.Closed
  · obtain ⟨r, hr, hin, -⟩ := horder.1 hclosed
    exact ⟨r, hr, hin, by simpa [hr, Except.toOption] using hpaths⟩
  · obtain ⟨p, -, -, herror⟩ := horder.2 hclosed
    simp [herror, Except.toOption] at hpaths

end Request

end ScriptRunner
