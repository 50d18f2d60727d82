import ScriptRunner.Proofs.Outcomes
import ScriptRunner.Resolution

/-!
# Successful steps of a resolution

What a step of a resolution has found when it comes to a result: one lemma for each step, from the
single questions to the files up to the visit of a script.

## Main definitions

* `FileSystem.HasFile` - a path leads to an existing file.

## Main statements

* `Resolver.follow_cons_eq_ok`, `Resolver.visit_eq_ok` - one directive, and one script.
* `Resolver.resolve_eq_ok` - a root script.
-/

namespace ScriptRunner

/-- A path leads to an existing regular file. -/
def FileSystem.HasFile (fs : FileSystem) (path : Path) : Prop :=
  fs.isFile path = .ok true

instance (fs : FileSystem) (path : Path) : Decidable (fs.HasFile path) :=
  match h : fs.isFile path with
  | .ok true => isTrue h
  | .ok false => isFalse (by simp [FileSystem.HasFile, h])
  | .error _ => isFalse (by simp [FileSystem.HasFile, h])

namespace Resolver

variable (r : Resolver)

theorem nameOf_eq_ok {path : Path} {name : String} :
    (r.nameOf path).outcome = .ok name ↔ r.settings.naming.symbolName? path = some name := by
  unfold nameOf
  split
  next h => simp [h]
  next found h =>
    simp only [Traced.outcome_emit_bind, Traced.outcome_pure, h, Except.ok.injEq,
      Option.some.injEq]

theorem outcome_isFile (path : Path) : (r.isFile path).outcome =
    (r.files.isFile path).mapError fun fault => .unreadable (.file fault path) :=
  Traced.outcome_emit_bind _ _

theorem isFile_eq_ok {path : Path} {b : Bool} :
    (r.isFile path).outcome = .ok b ↔ r.files.isFile path = .ok b := by
  rw [outcome_isFile, mapError_eq_ok]

theorem readText_eq_ok {path : Path} {text : String} :
    (r.readText path).outcome = .ok text ↔
      r.files.readText r.settings.codec path = .ok text := by
  simp only [readText, Traced.outcome_emit_bind, Traced.outcome_ofExcept, mapError_eq_ok]

/-- A directive that comes to a result leads to its target exactly if there is a file. -/
theorem locate_eq_ok {declaring : Path} {d : Directive} {found : Option Path}
    (h : (r.locate declaring d).outcome = .ok found) :
    found =
      if r.files.HasFile (r.target declaring d) then some (r.target declaring d) else none := by
  obtain ⟨isFile, htest, h⟩ := Traced.outcome_bind_eq_ok.1 h
  rw [r.isFile_eq_ok] at htest
  cases isFile with
  | true =>
    have hfile : r.files.HasFile (r.target declaring d) := htest
    rw [if_pos hfile]
    exact (Except.ok.inj h).symm
  | false =>
    have hfile : ¬ r.files.HasFile (r.target declaring d) := by
      rw [FileSystem.HasFile, htest]
      simp
    rw [if_neg hfile]
    cases hstrict : r.settings.strictImports with
    | true => simp [hstrict] at h
    | false =>
      simp only [hstrict, Bool.false_eq_true, if_false, Traced.outcome_emit_bind,
        Traced.outcome_pure, Except.ok.injEq] at h
      exact h.symm

/-- What follows a directive that leads to no file are the other directives; a target that is in
the graph only counts as an import, and any other one is visited before. -/
theorem follow_cons_eq_ok {visit : ImportGraph → Path → String → Resolving ImportGraph}
    {declaring : Path} {g g' : ImportGraph} {imports imports' : List Path} {d : Directive}
    {ds : List Directive}
    (h : (r.follow visit declaring g imports (d :: ds)).outcome = .ok (g', imports')) :
    (¬ r.files.HasFile (r.target declaring d) ∧
      (r.follow visit declaring g imports ds).outcome = .ok (g', imports')) ∨
    (r.files.HasFile (r.target declaring d) ∧ ∃ mid,
      (r.follow visit declaring mid (appendNew imports (r.target declaring d)) ds).outcome =
        .ok (g', imports') ∧
      ((g.contains (r.target declaring d) = true ∧ mid = g) ∨
        g.contains (r.target declaring d) = false ∧ ∃ name,
          r.settings.naming.symbolName? (r.target declaring d) = some name ∧
          (visit g (r.target declaring d) name).outcome = .ok mid)) := by
  rw [follow] at h
  obtain ⟨found, hfound, h⟩ := Traced.outcome_bind_eq_ok.1 h
  have hfound := r.locate_eq_ok hfound
  by_cases hfile : r.files.HasFile (r.target declaring d)
  · rw [if_pos hfile] at hfound
    subst hfound
    refine .inr ⟨hfile, ?_⟩
    by_cases hin : g.contains (r.target declaring d) = true
    · simp only [hin, if_true] at h
      exact ⟨g, by simpa using h, .inl ⟨hin, rfl⟩⟩
    · simp only [hin] at h
      obtain ⟨name, hname, h⟩ := Traced.outcome_bind_eq_ok.1 h
      rw [r.nameOf_eq_ok] at hname
      obtain ⟨mid, hvisit, h⟩ := Traced.outcome_bind_eq_ok.1 h
      exact ⟨mid, h, .inr ⟨by simpa using hin, name, hname, hvisit⟩⟩
  · rw [if_neg hfile] at hfound
    subst hfound
    exact .inl ⟨hfile, h⟩

/-- The visit of a script reads it, enters it without imports, follows its directives and attaches
the imports. -/
theorem visit_eq_ok {depth : Nat} {g g' : ImportGraph} {path : Path} {name : String}
    (h : (r.visit (depth + 1) g path name).outcome = .ok g') :
    ∃ source added followed imports,
      r.files.readText r.settings.codec path = .ok source ∧
      g.add ⟨path, name, source, (r.extractor path source).directives, []⟩ = .ok added ∧
      (r.follow (r.visit depth) path added [] (r.extractor path source).directives).outcome =
        .ok (followed, imports) ∧
      followed.update ⟨path, name, source, (r.extractor path source).directives, imports⟩ =
        .ok g' := by
  rw [visit] at h
  obtain ⟨source, hsource, h⟩ := Traced.outcome_bind_eq_ok.1 h
  rw [r.readText_eq_ok] at hsource
  obtain ⟨directives, hdirectives, h⟩ := Traced.outcome_bind_eq_ok.1 h
  obtain rfl : (r.extractor path source).directives = directives := Except.ok.inj hdirectives
  obtain ⟨added, hadded, h⟩ := Traced.outcome_bind_eq_ok.1 h
  rw [Traced.outcome_ofExcept, mapError_eq_ok] at hadded
  rw [Traced.outcome_emit_bind] at h
  obtain ⟨⟨followed, imports⟩, hfollow, h⟩ := Traced.outcome_bind_eq_ok.1 h
  rw [Traced.outcome_ofExcept, mapError_eq_ok] at h
  exact ⟨source, added, followed, imports, hsource, hadded, hfollow, h⟩

/-- The graph of a root script is the frozen graph of a visit that starts without scripts. -/
theorem resolve_eq_ok {written : String} {g : ImportGraph}
    (h : (r.resolve written).outcome = .ok g) :
    ∃ name visited,
      r.settings.naming.symbolName? (r.files.normalize (.ofString written)) = some name ∧
      r.files.HasFile (r.files.normalize (.ofString written)) ∧
      (r.visit r.files.capacity (.empty (r.files.normalize (.ofString written)))
        (r.files.normalize (.ofString written)) name).outcome = .ok visited ∧
      g = visited.freeze := by
  rw [resolve] at h
  obtain ⟨name, hname, h⟩ := Traced.outcome_bind_eq_ok.1 h
  rw [r.nameOf_eq_ok] at hname
  obtain ⟨isFile, htest, h⟩ := Traced.outcome_bind_eq_ok.1 h
  rw [r.isFile_eq_ok] at htest
  cases isFile with
  | false => simp at h
  | true =>
    simp only [if_true] at h
    obtain ⟨visited, hvisited, h⟩ := Traced.outcome_bind_eq_ok.1 h
    rw [Traced.outcome_emit_bind] at h
    exact ⟨name, visited, hname, htest, hvisited, (Except.ok.inj h).symm⟩

end Resolver

end ScriptRunner
