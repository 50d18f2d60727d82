import ScriptRunner.Proofs.ImportGraph.SameScripts
import ScriptRunner.Proofs.Resolution.Failures

/-!
# Directives that lead to no file

A lenient resolution comes to the same end as without the directives that lead to no file, with one
exception: the system may refuse to say whether there is a file, and a refusal ends the resolution.

## Main definitions

* `Resolver.pruned` - the same resolver when directives that lead to no file are not declared.
* `Resolver.RefusedBy` - the failure at a directive that the system refuses to test.
* `Resolver.IgnoresMissing` - directives that lead to no file make no difference.
* `Resolver.Agrees` - an outcome beside the outcome without these directives.

## Main statements

* `Resolver.visit_agrees` - the visit of a script with and without directives that lead to no file.
* `Resolver.visit_onlyFilesFail` - without them, what is tested or opened is a file.
* `Resolver.ignoresMissing_iff` - when directives that lead to no file make no difference.
-/

namespace ScriptRunner

namespace Resolver

variable (r : Resolver)

/-- The directives of a script that lead to files. -/
def leading (p : Path) (ds : List Directive) : List Directive :=
  ds.filter fun d => r.files.HasFile (r.target p d)

/-- The same resolver when directives that lead to no file are not declared. -/
def pruned : Resolver :=
  { r with extractor := fun p text =>
      let extraction := r.extractor p text
      { extraction with directives := r.leading p extraction.directives } }

/-- The failure of a resolution at a directive of a script that the root leads to: the system
refuses to say whether the directive leads to a file. -/
def RefusedBy (root : Path) (failure : ResolutionFailure) : Prop :=
  r.files.HasFile root ∧ ∃ p d fault, Relation.ReflTransGen r.Imports root p ∧
    d ∈ r.directivesAt p ∧ r.files.isFile (r.target p d) = .error fault ∧
    failure = .unreadable (.file fault (r.target p d))

/-- A script at a target, with all that it reaches, if it is not in the graph. -/
def enter (visit : ImportGraph → Path → String → Resolving ImportGraph) (g : ImportGraph)
    (q : Path) : Resolving ImportGraph :=
  if g.contains q then pure g else do visit g q (← r.nameOf q)

variable {r} {root p : Path} {d : Directive}

theorem imports_of_mem_directivesAt (hd : d ∈ r.directivesAt p)
    (hfile : r.files.HasFile (r.target p d)) : r.Imports p (r.target p d) := by
  rw [← mem_importsOf_iff, importsOf_eq_located, located, List.mem_filter]
  exact ⟨List.mem_map_of_mem hd, decide_eq_true hfile⟩

theorem directivesAt_pruned (p : Path) :
    r.pruned.directivesAt p = r.leading p (r.directivesAt p) := by
  unfold directivesAt pruned
  dsimp only
  cases r.files.readText r.settings.codec p <;> rfl

theorem follow_pruned (visit : ImportGraph → Path → String → Resolving ImportGraph) (p : Path)
    (ds : List Directive) : ∀ g imports,
      r.pruned.follow visit p g imports ds = r.follow visit p g imports ds := by
  induction ds with
  | nil => exact fun _ _ => rfl
  | cons d ds ih =>
    intro g imports
    rw [follow, follow]
    simp only [ih]
    rfl

section

variable {visit : ImportGraph → Path → String → Resolving ImportGraph}

theorem outcome_directivesOf (r : Resolver) {text : String}
    (h : r.files.readText r.settings.codec p = .ok text) :
    (r.directivesOf p text).outcome = .ok (r.directivesAt p) := by
  rw [r.directivesAt_eq h]
  rfl

theorem outcome_follow_of_refused {fault : FileFault}
    (h : r.files.isFile (r.target p d) = .error fault) (g : ImportGraph) (imports : List Path)
    (ds : List Directive) : (r.follow visit p g imports (d :: ds)).outcome =
      .error (.unreadable (.file fault (r.target p d))) := by
  have hviolated : r.violation? (.directive p d) =
      some (.unreadable (.file fault (r.target p d))) := by simp only [violation?, h]
  have hlocate := (decidedBy_singleton_iff.1 (r.locate_decidedBy p d)).1 _ hviolated
  rw [follow, Traced.bind_of_error hlocate]

theorem outcome_follow_of_missing (hlenient : r.settings.strictImports = false)
    (h : r.files.isFile (r.target p d) = .ok false) (g : ImportGraph) (imports : List Path)
    (ds : List Directive) : (r.follow visit p g imports (d :: ds)).outcome =
      (r.follow visit p g imports ds).outcome := by
  have hfine : r.violation? (.directive p d) = none := by simp [violation?, h, hlenient]
  obtain ⟨found, hlocate, hfound⟩ :=
    (decidedBy_singleton_iff.1 (r.locate_decidedBy p d)).2 hfine
  rw [if_neg (by simp [FileSystem.HasFile, h])] at hfound
  rw [follow, Traced.bind_of_ok hlocate, hfound]

theorem outcome_follow_of_file (h : r.files.HasFile (r.target p d)) (g : ImportGraph)
    (imports : List Path) (ds : List Directive) :
    (r.follow visit p g imports (d :: ds)).outcome =
      (r.enter visit g (r.target p d) >>= fun graph =>
          r.follow visit p graph (appendNew imports (r.target p d)) ds).outcome := by
  have hfine : r.violation? (.directive p d) = none :=
    (violation?_directive_eq_none_iff p d).2 ⟨⟨true, h⟩, fun _ => h⟩
  obtain ⟨found, hlocate, hfound⟩ :=
    (decidedBy_singleton_iff.1 (r.locate_decidedBy p d)).2 hfine
  rw [if_pos h] at hfound
  rw [follow, Traced.bind_of_ok hlocate, hfound, enter]
  by_cases hin : g.contains (r.target p d) = true
  · simp only [hin, if_true]
  · simp only [hin, Bool.false_eq_true, if_false, bind_assoc]

end

section

variable {α β : Type}

/-- A run that fails to look at a path or to open it fails at an existing file. -/
def OnlyFilesFail (r : Resolver) (x : Resolving α) : Prop :=
  ∀ fault t, x.outcome = .error (.unreadable (.file fault t)) → r.files.HasFile t

theorem OnlyFilesFail.bind {x : Resolving α} {f : α → Resolving β} (hx : r.OnlyFilesFail x)
    (hf : ∀ a, x.outcome = .ok a → r.OnlyFilesFail (f a)) : r.OnlyFilesFail (x >>= f) := by
  intro fault t h
  cases hxo : x.outcome with
  | error failure =>
    rw [Traced.bind_of_error hxo] at h
    exact hx fault t (hxo.trans (congrArg _ (Except.error.inj h)))
  | ok a =>
    rw [Traced.bind_of_ok hxo] at h
    exact hf a hxo fault t h

theorem onlyFilesFail_of_ok {x : Resolving α} {a : α} (h : x.outcome = .ok a) :
    r.OnlyFilesFail x := fun _ _ h' => by simp [h] at h'

theorem nameOf_onlyFilesFail (p : Path) : r.OnlyFilesFail (r.nameOf p) := by
  unfold nameOf
  split
  · exact fun fault t h => by simp at h
  · exact onlyFilesFail_of_ok (Traced.outcome_emit_bind _ _)

theorem readText_onlyFilesFail (hfile : r.files.HasFile p) : r.OnlyFilesFail (r.readText p) := by
  intro fault t h
  rw [readText, Traced.outcome_emit_bind, Traced.outcome_ofExcept, mapError_eq_error] at h
  obtain ⟨error, h, herror⟩ := h
  obtain rfl := ResolutionFailure.unreadable.inj herror
  unfold FileSystem.readText FileSystem.decodeText at h
  repeat' split at h
  all_goals simp at h
  rwa [← h.2]

theorem follow_onlyFilesFail {visit : ImportGraph → Path → String → Resolving ImportGraph}
    (hvisit : ∀ g q name, r.files.HasFile q → r.OnlyFilesFail (visit g q name))
    (ds : List Directive) : ∀ g imports, (∀ d ∈ ds, r.files.HasFile (r.target p d)) →
      r.OnlyFilesFail (r.follow visit p g imports ds) := by
  induction ds with
  | nil => exact fun _ _ _ => onlyFilesFail_of_ok rfl
  | cons d ds ih =>
    intro g imports hfiles
    obtain ⟨hfile, hfiles⟩ := List.forall_mem_cons.1 hfiles
    have henter : r.OnlyFilesFail (r.enter visit g (r.target p d)) := by
      unfold enter
      split
      · exact onlyFilesFail_of_ok rfl
      · exact (nameOf_onlyFilesFail _).bind fun name _ => hvisit g _ name hfile
    intro fault t h
    rw [outcome_follow_of_file hfile] at h
    exact henter.bind (fun graph _ => ih graph _ hfiles) fault t h

theorem visit_onlyFilesFail (depth : Nat) : ∀ g p name, r.files.HasFile p →
    r.OnlyFilesFail (r.pruned.visit depth g p name) := by
  induction depth with
  | zero => exact fun _ _ _ _ fault t h => by simp [visit] at h
  | succ depth ih =>
    intro g p name hfile
    rw [visit]
    refine OnlyFilesFail.bind (readText_onlyFilesFail hfile) fun source _ => ?_
    refine (onlyFilesFail_of_ok rfl).bind fun directives hdirectives => ?_
    obtain rfl : r.leading p (r.extractor p source).directives = directives :=
      Except.ok.inj hdirectives
    refine OnlyFilesFail.bind (fun fault t h => by simp [mapError_eq_error] at h) fun added _ => ?_
    refine (onlyFilesFail_of_ok (Traced.outcome_emit _)).bind fun _ _ => ?_
    refine OnlyFilesFail.bind ?_ fun followed _ fault t h => by simp [mapError_eq_error] at h
    rw [follow_pruned]
    exact follow_onlyFilesFail ih _ _ _ fun d hd => of_decide_eq_true (List.mem_filter.1 hd).2

end

section

variable {α β : Type}

/-- An outcome beside the outcome without the directives that lead to no file: both have results
that belong together, both fail in the same way, or the system refuses to test a directive. -/
inductive Agrees (r : Resolver) (root : Path) (R : α → α → Prop) :
    (all pruned : Except ResolutionFailure α) → Prop
  | results {a b : α} (h : R a b) : Agrees r root R (.ok a) (.ok b)
  | failures (failure : ResolutionFailure) : Agrees r root R (.error failure) (.error failure)
  | refused {failure : ResolutionFailure} {outcome : Except ResolutionFailure α}
      (h : r.RefusedBy root failure) : Agrees r root R (.error failure) outcome

variable {R : α → α → Prop} {S : β → β → Prop}

theorem Agrees.refl (outcome : Except ResolutionFailure α) :
    r.Agrees root Eq outcome outcome := by
  cases outcome with
  | error failure => exact .failures failure
  | ok a => exact .results rfl

theorem Agrees.bind {x y : Resolving α} (h : r.Agrees root R x.outcome y.outcome)
    {f g : α → Resolving β}
    (hfg : ∀ a b, x.outcome = .ok a → R a b → r.Agrees root S (f a).outcome (g b).outcome) :
    r.Agrees root S (x >>= f).outcome (y >>= g).outcome := by
  generalize hx : x.outcome = all at h
  generalize hy : y.outcome = pruned at h
  cases h with
  | results hab =>
    rw [Traced.bind_of_ok hx, Traced.bind_of_ok hy]
    exact hfg _ _ hx hab
  | failures failure =>
    rw [Traced.bind_of_error hx, Traced.bind_of_error hy]
    exact .failures failure
  | refused hrefused =>
    rw [Traced.bind_of_error hx]
    exact .refused hrefused

/-- Changes of graphs that do not look at directives. -/
theorem Agrees.of_change {x y : Except GraphFault ImportGraph}
    (h : x.map ImportGraph.withoutDirectives = y.map ImportGraph.withoutDirectives) :
    r.Agrees root ImportGraph.SameScripts (x.mapError .graph) (y.mapError .graph) := by
  obtain ⟨fault, rfl, rfl⟩ | ⟨g, g', rfl, rfl, hsame⟩ := map_eq_map h
  · exact .failures _
  · exact .results hsame

end

/-- Visits of the scripts that the root reaches, beside each other. -/
def VisitsAgree (r : Resolver) (root : Path)
    (visit visit' : ImportGraph → Path → String → Resolving ImportGraph) : Prop :=
  ∀ g g' q name, Relation.ReflTransGen r.Imports root q → g.SameScripts g' →
    r.Agrees root ImportGraph.SameScripts (visit g q name).outcome (visit' g' q name).outcome

theorem enter_agrees {visit visit' : ImportGraph → Path → String → Resolving ImportGraph}
    (hvisit : r.VisitsAgree root visit visit') {g g' : ImportGraph} (hg : g.SameScripts g')
    {q : Path} (hq : Relation.ReflTransGen r.Imports root q) :
    r.Agrees root ImportGraph.SameScripts (r.enter visit g q).outcome
      (r.enter visit' g' q).outcome := by
  unfold enter
  rw [← hg.contains_eq]
  by_cases hin : g.contains q = true
  · simp only [hin, if_true]
    exact .results hg
  · simp only [hin]
    refine (Agrees.refl (r.nameOf q).outcome).bind fun name _ _ heq => ?_
    subst heq
    exact hvisit g g' q name hq hg

theorem follow_agrees (hlenient : r.settings.strictImports = false) (hroot : r.files.HasFile root)
    {visit visit' : ImportGraph → Path → String → Resolving ImportGraph}
    (hvisit : r.VisitsAgree root visit visit') (hp : Relation.ReflTransGen r.Imports root p)
    (ds : List Directive) : ∀ g g' imports, (∀ d ∈ ds, d ∈ r.directivesAt p) → g.SameScripts g' →
      r.Agrees root (fun a b => a.1.SameScripts b.1 ∧ a.2 = b.2)
        (r.follow visit p g imports ds).outcome
        (r.follow visit' p g' imports (r.leading p ds)).outcome := by
  induction ds with
  | nil => exact fun _ _ _ _ hg => .results ⟨hg, rfl⟩
  | cons d ds ih =>
    intro g g' imports hds hg
    obtain ⟨hd, hds⟩ := List.forall_mem_cons.1 hds
    cases htest : r.files.isFile (r.target p d) with
    | error fault =>
      rw [outcome_follow_of_refused htest]
      exact .refused ⟨hroot, p, d, fault, hp, hd, htest, rfl⟩
    | ok isFile =>
      cases isFile with
      | false =>
        have hleading : r.leading p (d :: ds) = r.leading p ds :=
          List.filter_cons_of_neg (by simp [FileSystem.HasFile, htest])
        rw [outcome_follow_of_missing hlenient htest, hleading]
        exact ih g g' imports hds hg
      | true =>
        have hleading : r.leading p (d :: ds) = d :: r.leading p ds :=
          List.filter_cons_of_pos (decide_eq_true htest)
        rw [hleading, outcome_follow_of_file htest, outcome_follow_of_file htest]
        have hq := hp.tail (imports_of_mem_directivesAt hd htest)
        exact (enter_agrees hvisit hg hq).bind fun mid mid' _ hmid => ih mid mid' _ hds hmid

theorem visit_agrees (hlenient : r.settings.strictImports = false) (hroot : r.files.HasFile root)
    (depth : Nat) : r.VisitsAgree root (r.visit depth) (r.pruned.visit depth) := by
  induction depth with
  | zero => exact fun _ _ _ _ _ _ => .failures _
  | succ depth ih =>
    intro g g' p name hp hg
    rw [visit, visit]
    refine (Agrees.refl (r.readText p).outcome).bind fun source _ hsource heq => ?_
    subst heq
    have hsource := r.readText_eq_ok.1 hsource
    rw [Traced.bind_of_ok (r.outcome_directivesOf hsource),
      Traced.bind_of_ok (r.pruned.outcome_directivesOf hsource), directivesAt_pruned]
    have hadd : (g.add ⟨p, name, source, r.directivesAt p, []⟩).map ImportGraph.withoutDirectives =
        (g'.add ⟨p, name, source, r.leading p (r.directivesAt p), []⟩).map
          ImportGraph.withoutDirectives := by
      rw [← ImportGraph.add_withoutDirectives, ← ImportGraph.add_withoutDirectives, hg]
      rfl
    refine Agrees.bind (R := ImportGraph.SameScripts) (Agrees.of_change hadd)
      fun added added' _ hadded => ?_
    rw [Traced.outcome_emit_bind, Traced.outcome_emit_bind, follow_pruned]
    refine (follow_agrees hlenient hroot ih hp _ added added' [] (fun _ hd => hd) hadded).bind ?_
    rintro ⟨followed, imports⟩ ⟨followed', imports'⟩ - ⟨hfollowed, rfl⟩
    refine Agrees.of_change ?_
    rw [← ImportGraph.update_withoutDirectives, ← ImportGraph.update_withoutDirectives, hfollowed]
    rfl

/-- A resolution comes to the same graph apart from directives, or to the same failure, as without
the directives that lead to no file. -/
def IgnoresMissing (r : Resolver) (written : String) : Prop :=
  (r.resolve written).outcome.map ImportGraph.withoutDirectives =
    (r.pruned.resolve written).outcome.map ImportGraph.withoutDirectives

theorem resolve_agrees (hlenient : r.settings.strictImports = false) (written : String) :
    r.Agrees (r.rootPath written) ImportGraph.SameScripts (r.resolve written).outcome
      (r.pruned.resolve written).outcome := by
  rw [resolve, resolve]
  refine (Agrees.refl (r.nameOf (r.rootPath written)).outcome).bind fun name _ _ heq => ?_
  subst heq
  refine (Agrees.refl (r.isFile (r.rootPath written)).outcome).bind fun isFile _ htest heq => ?_
  subst heq
  cases isFile with
  | false =>
    rw [if_neg Bool.false_ne_true, if_neg Bool.false_ne_true]
    exact .failures _
  | true =>
    rw [if_pos rfl, if_pos rfl]
    have hempty : (ImportGraph.empty (r.rootPath written)).SameScripts
        (ImportGraph.empty (r.rootPath written)) := rfl
    refine (visit_agrees hlenient (r.isFile_eq_ok.1 htest) _ _ _ _ name .refl hempty).bind
      fun g g' _ hg => ?_
    rw [Traced.outcome_emit_bind, Traced.outcome_emit_bind]
    exact .results (congrArg ImportGraph.freeze hg)

theorem resolve_onlyFilesFail {written : String} (hroot : r.files.HasFile (r.rootPath written)) :
    r.OnlyFilesFail (r.pruned.resolve written) := by
  rw [resolve]
  refine (nameOf_onlyFilesFail (r.rootPath written)).bind fun name _ => ?_
  refine (onlyFilesFail_of_ok (r.isFile_eq_ok.2 hroot)).bind fun isFile htest => ?_
  obtain rfl : isFile = true := by
    have htest := r.isFile_eq_ok.1 htest
    exact Except.ok.inj (htest.symm.trans hroot)
  rw [if_pos rfl]
  refine (visit_onlyFilesFail _ _ _ name hroot).bind fun g _ => ?_
  exact onlyFilesFail_of_ok (Traced.outcome_emit_bind _ _)

/-- Directives that lead to no file make no difference for a lenient resolution, unless the system
refuses to test one of them and the resolution fails for that. -/
theorem ignoresMissing_iff (hlenient : r.settings.strictImports = false) (written : String) :
    r.IgnoresMissing written ↔ ¬ ∃ failure, (r.resolve written).outcome = .error failure ∧
      r.RefusedBy (r.rootPath written) failure := by
  constructor
  · rintro h ⟨failure, houtcome, hroot, p, d, fault, -, -, htest, rfl⟩
    rw [IgnoresMissing, houtcome] at h
    have hpruned : (r.pruned.resolve written).outcome =
        .error (.unreadable (.file fault (r.target p d))) := by
      cases hp : (r.pruned.resolve written).outcome with
      | error failure' =>
        rw [hp] at h
        exact congrArg _ (Except.error.inj h).symm
      | ok g => simp [hp, Except.map] at h
    -- Without the directive nothing else can fail at its target.
    have hfile := resolve_onlyFilesFail hroot fault _ hpruned
    simp [FileSystem.HasFile, htest] at hfile
  · intro h
    unfold IgnoresMissing
    have hagrees := resolve_agrees hlenient written
    generalize (r.resolve written).outcome = all at h hagrees ⊢
    generalize (r.pruned.resolve written).outcome = pruned at hagrees ⊢
    cases hagrees with
    | results hg => exact congrArg Except.ok hg
    | failures failure => rfl
    | refused hrefused => exact absurd ⟨_, rfl, hrefused⟩ h

/-- The third directive of the root leads to no file. -/
theorem ignoresMissing_knot : knot.settings.strictImports = false ∧
    knot.IgnoresMissing "scripts/a" ∧
    knot.pruned.directivesAt (.ofString "/scripts/a") ≠
      knot.directivesAt (.ofString "/scripts/a") := by
  have hsome : (knot.resolve "scripts/a").outcome.toOption.isSome = true := by decide +kernel
  refine ⟨rfl, (ignoresMissing_iff rfl "scripts/a").2 ?_, by decide +kernel⟩
  rintro ⟨failure, houtcome, -⟩
  simp [houtcome, Except.toOption] at hsome

/-- A root that is fine itself, with a single directive that the system refuses to test. -/
theorem not_ignoresMissing_of_refused (hfiles : r.files.Bounded) {written : String}
    {fault : FileFault} (hroot : ∀ c ∈ [.name (r.rootPath written),
      .existence (r.rootPath written) written, .reading (r.rootPath written),
      .collision (r.rootPath written) []], r.violation? c = none)
    (hdirectives : r.directivesAt (r.rootPath written) = [d])
    (htest : r.files.isFile (r.target (r.rootPath written) d) = .error fault) :
    ¬ r.IgnoresMissing written := by
  have hmissing : ¬ r.files.HasFile (r.target (r.rootPath written) d) := by
    simp [FileSystem.HasFile, htest]
  have hinspects : r.Inspects [r.rootPath written] (r.rootPath written)
      (r.directivesAt (r.rootPath written)) [.directive (r.rootPath written) d] [] := by
    rw [hdirectives]
    exact .missing hmissing (.done _ _)
  have hpruned : r.pruned.Inspects [r.rootPath written] (r.rootPath written)
      (r.pruned.directivesAt (r.rootPath written)) [] [] := by
    have hleading : r.leading (r.rootPath written) [d] = [] :=
      List.filter_cons_of_neg (by simpa using hmissing)
    rw [directivesAt_pruned, hdirectives, hleading]
    exact .done _ _
  have hrefused : r.violation? (.directive (r.rootPath written) d) =
      some (.unreadable (.file fault (r.target (r.rootPath written) d))) := by
    simp only [violation?, htest]
  simp only [List.forall_mem_cons] at hroot
  obtain ⟨hname, hexistence, hreading, hcollision, -⟩ := hroot
  have hroot : r.InspectsRoot written (r.rootPath written) _ _ := .root hinspects
  have hfails := r.resolve_decidedBy hfiles hroot
  simp only [DecidedBy, List.findSome?, hname, hexistence, hreading, hcollision, hrefused] at hfails
  have hroot' : r.pruned.InspectsRoot written (r.rootPath written) _ _ := .root hpruned
  have hsucceeds := r.pruned.resolve_decidedBy hfiles hroot'
  have hviolation : r.pruned.violation? = r.violation? := rfl
  simp only [DecidedBy, List.findSome?, hviolation, hname, hexistence, hreading, hcollision]
    at hsucceeds
  obtain ⟨g, hg, -⟩ := hsucceeds
  simp [IgnoresMissing, hfails, hg, Except.map]

/-- A longer name than the system takes. -/
def overlongName : String := String.ofList (List.replicate 256 'n')

/-- A script that imports a file with an overlong name. -/
def overlong : Resolver where
  settings := {}
  extractor := .ofList .top [(.ofString "/scripts/a", [overlongName])]
  files := ((Snapshot.start .top).learn ⟨.root, ["scripts", overlongName]⟩ (.error .nameTooLong)
    |>.learn (.ofString "/scripts/a") (.ok [])).fileSystem

theorem ofString_overlongName : Path.ofString overlongName = ⟨.relative, [overlongName]⟩ := by
  unfold Path.ofString overlongName
  rw [String.toList_ofList]
  decide +kernel

/-- There is no file with the overlong name, and still the resolution fails. -/
theorem not_ignoresMissing_overlong : overlong.settings.strictImports = false ∧
    overlong.files.Bounded ∧ ¬ overlong.IgnoresMissing "scripts/a" := by
  have hroot : overlong.rootPath "scripts/a" = .ofString "/scripts/a" := by decide +kernel
  have htarget : overlong.target (.ofString "/scripts/a") ⟨overlongName, none⟩ =
      ⟨.root, ["scripts", overlongName]⟩ := by
    rw [target, Directive.spelling_ofString, ofString_overlongName]
    decide +kernel
  have htext : overlong.files.readText overlong.settings.codec (.ofString "/scripts/a") =
      .ok "" := by decide +kernel
  have hdirectives : overlong.directivesAt (overlong.rootPath "scripts/a") =
      [⟨overlongName, none⟩] := by
    rw [hroot, overlong.directivesAt_eq htext]
    exact Extractor.directives_ofList_singleton .top (.ofString "/scripts/a") [overlongName] ""
  have htest : overlong.files.isFile (overlong.target (overlong.rootPath "scripts/a")
      ⟨overlongName, none⟩) = .error .nameTooLong := by
    rw [hroot, htarget]
    decide +kernel
  have hfiles : overlong.files.Bounded := Snapshot.bounded_fileSystem _
  exact ⟨by decide +kernel, hfiles,
    not_ignoresMissing_of_refused hfiles (by decide +kernel) hdirectives htest⟩

end Resolver

end ScriptRunner
