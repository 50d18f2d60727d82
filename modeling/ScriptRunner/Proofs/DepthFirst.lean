import Mathlib.Data.List.Nodup
import Mathlib.Data.Set.Insert
import Mathlib.Logic.Relation

/-!
# Depth-first walks

A depth-first walk over a graph that is given by the list of successors of each node. The walk
enters a node before its successors and leaves it after them, and it passes over a node that it has
visited already. Its two traces are the nodes in the order of entry and in the order of leaving.

## Main definitions

* `DepthFirst` - a walk over an agenda, from the nodes visited before to its two traces.

## Main statements

* `DepthFirst.mem_entered_iff` - a walk from a root enters exactly the nodes the root leads to.
* `DepthFirst.left_before_or_leads_back` - a successor is left before its predecessor, unless it
  leads back to it.
-/

namespace ScriptRunner

variable {α : Type} {next : α → List α}

/-- A node leads to another through successors, in any number of steps. -/
abbrev LeadsTo (next : α → List α) : α → α → Prop :=
  Relation.ReflTransGen fun p q => q ∈ next p

/-- A depth-first walk over the nodes of an agenda, when some nodes have been visited before: the
nodes that it enters and the nodes that it leaves, each list in the order of the walk. -/
inductive DepthFirst (next : α → List α) :
    (visited : Set α) → (agenda entered left : List α) → Prop
  | done (visited : Set α) : DepthFirst next visited [] [] []
  | skip {visited : Set α} {p : α} {agenda entered left : List α} (hseen : p ∈ visited)
      (hrest : DepthFirst next visited agenda entered left) :
      DepthFirst next visited (p :: agenda) entered left
  | enter {visited : Set α} {p : α} {agenda below belowLeft after afterLeft : List α}
      (hnew : p ∉ visited)
      (hbelow : DepthFirst next (insert p visited) (next p) below belowLeft)
      (hafter : DepthFirst next (insert p visited ∪ {q | q ∈ below}) agenda after afterLeft) :
      DepthFirst next visited (p :: agenda) (p :: (below ++ after)) (belowLeft ++ p :: afterLeft)

namespace DepthFirst

variable {visited : Set α} {agenda entered left : List α}

/-- Whatever is entered is left, once. -/
theorem perm (h : DepthFirst next visited agenda entered left) : entered.Perm left := by
  induction h with
  | done => exact .nil
  | skip _ _ ih => exact ih
  | enter _ _ _ ihBelow ihAfter =>
    exact ((ihBelow.append ihAfter).cons _).trans List.perm_middle.symm

theorem not_mem_visited (h : DepthFirst next visited agenda entered left) :
    ∀ q ∈ entered, q ∉ visited := by
  induction h with
  | done => simp
  | skip _ _ ih => exact ih
  | enter hnew _ _ ihBelow ihAfter =>
    intro q hq hvisited
    rcases List.mem_cons.1 hq with rfl | hq
    · exact hnew hvisited
    rcases List.mem_append.1 hq with hq | hq
    · exact ihBelow q hq (.inr hvisited)
    · exact ihAfter q hq (.inl (.inr hvisited))

/-- No node is entered twice. -/
theorem nodup_entered (h : DepthFirst next visited agenda entered left) : entered.Nodup := by
  induction h with
  | done => exact List.nodup_nil
  | skip _ _ ih => exact ih
  | enter hnew hbelow hafter ihBelow ihAfter =>
    refine List.nodup_cons.2 ⟨fun hmem => ?_, ihBelow.append ihAfter fun q hq hq' => ?_⟩
    · rcases List.mem_append.1 hmem with hq | hq
      · exact hbelow.not_mem_visited _ hq (.inl rfl)
      · exact hafter.not_mem_visited _ hq (.inl (.inl rfl))
    · exact hafter.not_mem_visited q hq' (.inr hq)

/-- A walk over one agenda goes on with a walk over another. -/
theorem append (h : DepthFirst next visited agenda entered left)
    {agenda' entered' left' : List α}
    (h' : DepthFirst next (visited ∪ {q | q ∈ entered}) agenda' entered' left') :
    DepthFirst next visited (agenda ++ agenda') (entered ++ entered') (left ++ left') := by
  induction h with
  | done => simpa using h'
  | skip hseen _ ih => exact .skip hseen (ih h')
  | @enter visited p agenda below belowLeft after afterLeft hnew hbelow _ _ ihAfter =>
    have hvisited : visited ∪ {q | q ∈ p :: (below ++ after)} =
        insert p visited ∪ {q | q ∈ below} ∪ {q | q ∈ after} := by
      ext q
      simp only [List.mem_cons, List.mem_append, Set.mem_union, Set.mem_ofPred_eq,
        Set.mem_insert_iff]
      tauto
    rw [hvisited] at h'
    have hwalk := DepthFirst.enter hnew hbelow (ihAfter h')
    simpa only [List.cons_append, List.append_assoc] using hwalk

/-- Every node of the agenda is visited in the end. -/
theorem agenda_covered (h : DepthFirst next visited agenda entered left) :
    ∀ q ∈ agenda, q ∈ visited ∨ q ∈ entered := by
  induction h with
  | done => simp
  | skip hseen _ ih =>
    intro q hq
    rcases List.mem_cons.1 hq with rfl | hq
    · exact .inl hseen
    · exact ih q hq
  | enter _ _ _ _ ihAfter =>
    intro q hq
    rcases List.mem_cons.1 hq with rfl | hq
    · exact .inr List.mem_cons_self
    rcases ihAfter q hq with ((rfl | hq) | hq) | hq
    · exact .inr List.mem_cons_self
    · exact .inl hq
    · exact .inr (List.mem_cons_of_mem _ (List.mem_append_left _ hq))
    · exact .inr (List.mem_cons_of_mem _ (List.mem_append_right _ hq))

/-- The successors of an entered node are visited in the end. -/
theorem next_covered (h : DepthFirst next visited agenda entered left) :
    ∀ p ∈ entered, ∀ q ∈ next p, q ∈ visited ∨ q ∈ entered := by
  induction h with
  | done => simp
  | skip _ _ ih => exact ih
  | @enter visited root agenda below belowLeft after afterLeft _ hbelow _ ihBelow ihAfter =>
    -- What the walk below the node has visited lies in the whole walk.
    have hlift : ∀ q, q ∈ insert root visited ∨ q ∈ below →
        q ∈ visited ∨ q ∈ root :: (below ++ after) := by
      rintro q ((rfl | hq) | hq)
      · exact .inr List.mem_cons_self
      · exact .inl hq
      · exact .inr (List.mem_cons_of_mem _ (List.mem_append_left _ hq))
    intro p hp q hq
    rcases List.mem_cons.1 hp with rfl | hp
    · exact hlift q (hbelow.agenda_covered q hq)
    rcases List.mem_append.1 hp with hp | hp
    · exact hlift q (ihBelow p hp q hq)
    · rcases ihAfter p hp q hq with hq | hq
      · exact hlift q hq
      · exact .inr (List.mem_cons_of_mem _ (List.mem_append_right _ hq))

/-- Every entered node is reached from the agenda. -/
theorem reached (h : DepthFirst next visited agenda entered left) :
    ∀ q ∈ entered, ∃ p ∈ agenda, LeadsTo next p q := by
  induction h with
  | done => simp
  | skip _ _ ih =>
    intro q hq
    obtain ⟨p, hp, hpq⟩ := ih q hq
    exact ⟨p, List.mem_cons_of_mem _ hp, hpq⟩
  | enter _ _ _ ihBelow ihAfter =>
    intro q hq
    rcases List.mem_cons.1 hq with rfl | hq
    · exact ⟨q, List.mem_cons_self, .refl⟩
    rcases List.mem_append.1 hq with hq | hq
    · obtain ⟨p, hp, hpq⟩ := ihBelow q hq
      exact ⟨_, List.mem_cons_self, .head hp hpq⟩
    · obtain ⟨p, hp, hpq⟩ := ihAfter q hq
      exact ⟨p, List.mem_cons_of_mem _ hp, hpq⟩

/-- A walk from a root enters exactly the nodes that the root leads to. -/
theorem mem_entered_iff {root : α} (h : DepthFirst next ∅ [root] entered left) (q : α) :
    q ∈ entered ↔ LeadsTo next root q := by
  constructor
  · intro hq
    obtain ⟨p, hp, hpq⟩ := h.reached q hq
    rwa [List.mem_singleton.1 hp] at hpq
  · intro hq
    induction hq with
    | refl => exact (h.agenda_covered root List.mem_cons_self).resolve_left (Set.notMem_empty _)
    | tail _ hstep ih => exact (h.next_covered _ ih _ hstep).resolve_left (Set.notMem_empty _)

/-- A walk from a root enters the root first and leaves it last. -/
theorem root_first_last {root : α} (h : DepthFirst next ∅ [root] entered left) :
    entered.head? = some root ∧ left.getLast? = some root := by
  cases h with
  | skip hseen _ => exact absurd hseen (Set.notMem_empty _)
  | enter _ _ hafter => cases hafter; simp

/-- A successor of a node is left before it, or has been left before the walk, or leads back to the
node. The nodes `closed` are those left before the walk; those that are only visited are still open
and lead to the whole agenda. -/
theorem left_before_or_leads_back_of_open (h : DepthFirst next visited agenda entered left) :
    ∀ closed : Set α, closed ⊆ visited →
      (∀ a ∈ visited, a ∉ closed → ∀ p ∈ agenda, LeadsTo next a p) →
      ∀ u ∈ left, ∀ v ∈ next u, v ∈ closed ∨ List.Sublist [v, u] left ∨ LeadsTo next v u := by
  induction h with
  | done => simp
  | skip _ _ ih =>
    intro closed hsub hopen u hu v hv
    exact ih closed hsub (fun a ha hna p hp => hopen a ha hna p (List.mem_cons_of_mem _ hp))
      u hu v hv
  | @enter visited root agenda below belowLeft after afterLeft hnew hbelow _ ihBelow ihAfter =>
    intro closed hsub hopen u hu v hv
    have hroot : ∀ a ∈ visited, a ∉ closed → LeadsTo next a root :=
      fun a ha hna => hopen a ha hna root List.mem_cons_self
    rcases List.mem_append.1 hu with hu | hu
    · -- `u` is left below the root, which is open there like all that was open before.
      have hopen' : ∀ a ∈ insert root visited, a ∉ closed → ∀ p ∈ next root, LeadsTo next a p := by
        rintro a (rfl | ha) hna p hp
        · exact .single hp
        · exact (hroot a ha hna).tail hp
      rcases ihBelow closed (hsub.trans (Set.subset_insert _ _)) hopen' u hu v hv with h | h | h
      · exact .inl h
      · exact .inr (.inl (h.trans (List.sublist_append_left _ _)))
      · exact .inr (.inr h)
    rcases List.mem_cons.1 hu with rfl | huAfter
    · -- `u` is the root: a successor is left below it, or was visited before.
      rcases hbelow.agenda_covered v hv with (rfl | hseen) | hin
      · exact .inr (.inr .refl)
      · by_cases hc : v ∈ closed
        · exact .inl hc
        · exact .inr (.inr (hroot v hseen hc))
      · have hmem : v ∈ belowLeft := hbelow.perm.mem_iff.1 hin
        exact .inr (.inl ((List.singleton_sublist.2 hmem).append
          (List.singleton_sublist.2 List.mem_cons_self)))
    · -- `u` is left after the root, which is closed by then with all that was entered below it.
      have hsub' : closed ∪ {q | q ∈ belowLeft ∨ q = root} ⊆
          insert root visited ∪ {q | q ∈ below} := by
        rintro q (hq | hq | rfl)
        · exact .inl (.inr (hsub hq))
        · exact .inr (hbelow.perm.mem_iff.2 hq)
        · exact .inl (.inl rfl)
      have hopen' : ∀ a ∈ insert root visited ∪ {q | q ∈ below},
          a ∉ closed ∪ {q | q ∈ belowLeft ∨ q = root} → ∀ p ∈ agenda, LeadsTo next a p := by
        rintro a ((rfl | ha) | ha) hna p hp
        · exact absurd (.inr (.inr rfl)) hna
        · exact hopen a ha (fun hc => hna (.inl hc)) p (List.mem_cons_of_mem _ hp)
        · exact absurd (.inr (.inl (hbelow.perm.mem_iff.1 ha))) hna
      rcases ihAfter _ hsub' hopen' u huAfter v hv with (hc | hin | rfl) | h | h
      · exact .inl hc
      · exact .inr (.inl ((List.singleton_sublist.2 hin).append (List.singleton_sublist.2 hu)))
      · exact .inr (.inl (((List.singleton_sublist.2 huAfter).cons_cons v).trans
          (List.sublist_append_right _ _)))
      · exact .inr (.inl ((h.cons root).trans (List.sublist_append_right _ _)))
      · exact .inr (.inr h)

/-- In a walk from a root, a successor of a node is left before it or leads back to it. -/
theorem left_before_or_leads_back {root : α} (h : DepthFirst next ∅ [root] entered left) {u v : α}
    (hu : u ∈ left) (hv : v ∈ next u) : List.Sublist [v, u] left ∨ LeadsTo next v u :=
  (h.left_before_or_leads_back_of_open ∅ (Set.empty_subset _)
    (fun a ha => absurd ha (Set.notMem_empty a)) u hu v hv).resolve_left (Set.notMem_empty v)

end DepthFirst

end ScriptRunner
