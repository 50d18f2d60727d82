import ScriptRunner.Proofs.ImportGraph.SameScripts
import ScriptRunner.Proofs.Outcomes
import ScriptRunner.Proofs.Path.Spelling
import ScriptRunner.Proofs.Resolution.Reachability

/-!
# Spellings of imports

Scripts are compared by the normal forms of their paths, so it makes no difference in which of its
spellings an import is declared: it means the same script, and a resolution comes to the same graph.
Directives that are given beforehand are found by any spelling of the path of their script.

## Main definitions

* `ResolutionFailure.withoutSpelling` - a failure apart from the way in which an import is written.
* `Resolver.Parallel` - the outcomes of two resolutions that differ in spellings only.
* `Resolver.IgnoresSpelling` - a resolver takes all spellings of a path as one.

## Main statements

* `Resolver.visit_parallel` - visits of a script with directives in different spellings.
* `Extractor.ofTexts_eq` - directives that are given for different spellings of one path.
* `Path.canonical_normalize` - what normalization does to a path and to its spellings.
-/

namespace ScriptRunner

/-- A failure apart from the way in which an import is written, and from its place in the script. -/
def ResolutionFailure.withoutSpelling : ResolutionFailure → ResolutionFailure
  | notFound _ target declaredIn _ => notFound [] target declaredIn none
  | failure => failure

namespace Resolver

variable {r : Resolver} {declaring : Path}

/-- Directives that differ in detours mean the same script. -/
theorem target_eq {d d' : Directive} (h : DifferInDetours d.spelling d'.spelling) (r : Resolver)
    (declaring : Path) : r.target declaring d = r.target declaring d' :=
  (h.actAlike.join declaring.parent).normalize_eq r.files.cwd

section

variable {α β : Type} {R : α → α → Prop} {S : β → β → Prop}

/-- Two outcomes: results that belong together, or failures that differ in spellings only. -/
inductive Parallel (R : α → α → Prop) : (outcome outcome' : Except ResolutionFailure α) → Prop
  | results {a a' : α} (h : R a a') : Parallel R (.ok a) (.ok a')
  | failures {failure failure' : ResolutionFailure}
      (h : failure.withoutSpelling = failure'.withoutSpelling) :
      Parallel R (.error failure) (.error failure')

theorem Parallel.refl (outcome : Except ResolutionFailure α) : Parallel Eq outcome outcome := by
  cases outcome with
  | error failure => exact .failures rfl
  | ok a => exact .results rfl

theorem Parallel.bind {x x' : Resolving α} (h : Parallel R x.outcome x'.outcome)
    {f f' : α → Resolving β}
    (hf : ∀ a a', R a a' → Parallel S (f a).outcome (f' a').outcome) :
    Parallel S (x >>= f).outcome (x' >>= f').outcome := by
  generalize hx : x.outcome = outcome at h
  generalize hx' : x'.outcome = outcome' at h
  cases h with
  | results ha =>
    rw [Traced.bind_of_ok hx, Traced.bind_of_ok hx']
    exact hf _ _ ha
  | failures hfailure =>
    rw [Traced.bind_of_error hx, Traced.bind_of_error hx']
    exact .failures hfailure

/-- Changes of graphs that do not look at directives. -/
theorem Parallel.of_change {x x' : Except GraphFault ImportGraph}
    (h : x.map ImportGraph.withoutDirectives = x'.map ImportGraph.withoutDirectives) :
    Parallel ImportGraph.SameScripts (x.mapError .graph) (x'.mapError .graph) := by
  obtain ⟨fault, rfl, rfl⟩ | ⟨g, g', rfl, rfl, hsame⟩ := map_eq_map h
  · exact .failures rfl
  · exact .results hsame

end

/-- The same resolver with directives from elsewhere. -/
def withExtractor (r : Resolver) (extractor : Extractor) : Resolver :=
  { r with extractor }

/-- An extractor gives the same directives as that of a resolver, apart from detours. -/
def SpelledAlike (r : Resolver) (extractor : Extractor) : Prop :=
  ∀ p text, List.Forall₂ (fun d d' => DifferInDetours d.spelling d'.spelling)
    (r.extractor p text).directives (extractor p text).directives

variable {extractor : Extractor}

theorem locate_parallel {d d' : Directive} (h : DifferInDetours d.spelling d'.spelling) :
    Parallel Eq (r.locate declaring d).outcome
      ((r.withExtractor extractor).locate declaring d').outcome := by
  have htarget : (r.withExtractor extractor).target declaring d' = r.target declaring d :=
    (target_eq h r declaring).symm
  have hsettings : (r.withExtractor extractor).settings = r.settings := rfl
  unfold locate
  rw [htarget, hsettings]
  refine (Parallel.refl (r.isFile (r.target declaring d)).outcome).bind fun found _ heq => ?_
  subst heq
  cases found with
  | true => exact .results rfl
  | false =>
    rw [if_neg Bool.false_ne_true, if_neg Bool.false_ne_true]
    by_cases hstrict : r.settings.strictImports = true
    · rw [if_pos hstrict, if_pos hstrict]
      exact .failures rfl
    · rw [if_neg hstrict, if_neg hstrict]
      exact .results rfl

/-- Two ways to visit scripts come to the same graphs. -/
def VisitsParallel (visit visit' : ImportGraph → Path → String → Resolving ImportGraph) : Prop :=
  ∀ g g' q name, g.SameScripts g' →
    Parallel ImportGraph.SameScripts (visit g q name).outcome (visit' g' q name).outcome

theorem follow_parallel {visit visit' : ImportGraph → Path → String → Resolving ImportGraph}
    (hvisit : VisitsParallel visit visit') {ds ds' : List Directive}
    (h : List.Forall₂ (fun d d' => DifferInDetours d.spelling d'.spelling) ds ds') :
    ∀ g g' imports, g.SameScripts g' →
      Parallel (fun a a' => a.1.SameScripts a'.1 ∧ a.2 = a'.2)
        (r.follow visit declaring g imports ds).outcome
        ((r.withExtractor extractor).follow visit' declaring g' imports ds').outcome := by
  induction h with
  | nil =>
    intro g g' imports hg
    exact .results ⟨hg, rfl⟩
  | cons hd _ ih =>
    intro g g' imports hg
    rw [follow, follow]
    refine (locate_parallel hd).bind fun found _ heq => ?_
    subst heq
    cases found with
    | none => exact ih g g' imports hg
    | some q =>
      dsimp only
      rw [← hg.contains_eq]
      by_cases hin : g.contains q = true
      · rw [if_pos hin, if_pos hin]
        exact ih g g' _ hg
      · rw [if_neg hin, if_neg hin]
        refine (Parallel.refl (r.nameOf q).outcome).bind fun name _ heq => ?_
        subst heq
        exact (hvisit g g' q name hg).bind fun mid mid' hmid => ih mid mid' _ hmid

theorem visit_parallel (h : r.SpelledAlike extractor) (depth : Nat) :
    VisitsParallel (r.visit depth) ((r.withExtractor extractor).visit depth) := by
  induction depth with
  | zero => exact fun _ _ _ _ _ => .failures rfl
  | succ depth ih =>
    intro g g' p name hg
    rw [visit, visit]
    refine (Parallel.refl (r.readText p).outcome).bind fun source _ heq => ?_
    subst heq
    refine Parallel.bind (.results (h p source)) fun ds ds' hds => ?_
    have hadd : (g.add ⟨p, name, source, ds, []⟩).map ImportGraph.withoutDirectives =
        (g'.add ⟨p, name, source, ds', []⟩).map ImportGraph.withoutDirectives := by
      rw [← ImportGraph.add_withoutDirectives, ← ImportGraph.add_withoutDirectives, hg]
      rfl
    refine Parallel.bind (Parallel.of_change hadd) fun added added' hadded => ?_
    rw [Traced.outcome_emit_bind, Traced.outcome_emit_bind]
    refine (follow_parallel ih hds added added' [] hadded).bind ?_
    rintro ⟨followed, imports⟩ ⟨followed', imports'⟩ ⟨hfollowed, rfl⟩
    refine Parallel.of_change ?_
    rw [← ImportGraph.update_withoutDirectives, ← ImportGraph.update_withoutDirectives, hfollowed]
    rfl

/-- Different spellings of the root and of imports come to the same graph, apart from the directives
as they are declared, or to the same failure. -/
theorem resolve_parallel (h : r.SpelledAlike extractor) {written written' : String}
    (hwritten : DifferInDetours written written') :
    Parallel ImportGraph.SameScripts (r.resolve written).outcome
      ((r.withExtractor extractor).resolve written').outcome := by
  have hroot : (r.withExtractor extractor).files.normalize (.ofString written') =
      r.files.normalize (.ofString written) := (hwritten.normalize_eq r.files.cwd).symm
  rw [resolve, resolve, hroot]
  refine (Parallel.refl (r.nameOf (r.files.normalize (.ofString written))).outcome).bind
    fun name _ heq => ?_
  subst heq
  refine (Parallel.refl (r.isFile (r.files.normalize (.ofString written))).outcome).bind
    fun found _ heq => ?_
  subst heq
  cases found with
  | false =>
    rw [if_neg Bool.false_ne_true, if_neg Bool.false_ne_true]
    exact .failures rfl
  | true =>
    rw [if_pos rfl, if_pos rfl]
    refine (visit_parallel h _ _ _ _ name rfl).bind fun g g' hg => ?_
    rw [Traced.outcome_emit_bind, Traced.outcome_emit_bind]
    exact .results (congrArg ImportGraph.freeze hg)

/-- A resolver takes all spellings of a path as one: directives mean the same script and lead to the
same file, and different spellings of all paths come to the same graph or to the same failure. -/
structure IgnoresSpelling (r : Resolver) : Prop where
  key : ∀ declaring d d', DifferInDetours d.spelling d'.spelling →
    r.target declaring d = r.target declaring d'
  located : ∀ declaring d d' q, DifferInDetours d.spelling d'.spelling →
    ((r.locate declaring d).outcome = .ok (some q) ↔ (r.locate declaring d').outcome = .ok (some q))
  graph : ∀ extractor written written', r.SpelledAlike extractor →
    DifferInDetours written written' →
    Parallel ImportGraph.SameScripts (r.resolve written).outcome
      ((r.withExtractor extractor).resolve written').outcome

theorem ignoresSpelling (r : Resolver) : r.IgnoresSpelling where
  key declaring d d' h := target_eq h r declaring
  located declaring d d' q h := by
    have hlocate : Parallel Eq (r.locate declaring d).outcome
        ((r.withExtractor r.extractor).locate declaring d').outcome := locate_parallel h
    have hself : r.withExtractor r.extractor = r := rfl
    rw [hself] at hlocate
    generalize (r.locate declaring d).outcome = outcome at hlocate ⊢
    generalize (r.locate declaring d').outcome = outcome' at hlocate ⊢
    cases hlocate with
    | results heq => rw [heq]
    | failures _ => simp
  graph extractor written written' h hwritten := resolve_parallel h hwritten

end Resolver

/-- The values that two tables bind one after the other are related, if they are related entry by
entry. -/
theorem Table.rel_find?_ofList {κ α β : Type} [DecidableEq κ] {R : α → β → Prop}
    {xs : List (κ × α)} {ys : List (κ × β)}
    (h : List.Forall₂ (fun x y => x.1 = y.1 ∧ R x.2 y.2) xs ys) (key : κ) :
    Option.Rel R ((ofList xs).find? key) ((ofList ys).find? key) := by
  suffices hfold : ∀ (t : Table κ α) (t' : Table κ β),
      (∀ k, Option.Rel R (t.find? k) (t'.find? k)) →
      Option.Rel R ((xs.foldl (fun t x => t.insert x.1 x.2) t).find? key)
        ((ys.foldl (fun t y => t.insert y.1 y.2) t').find? key) by
    exact hfold .empty .empty fun k => .none
  induction h with
  | nil => exact fun t t' ht => ht key
  | @cons x y xs ys hxy _ ih =>
    intro t t' ht
    refine ih _ _ fun k => ?_
    rw [find?_insert, find?_insert, hxy.1]
    by_cases hk : y.1 = k
    · rw [if_pos hk, if_pos hk]
      exact .some hxy.2
    · rw [if_neg hk, if_neg hk]
      exact ht k

theorem forall₂_getD {α β : Type} {R : α → β → Prop} {xs? : Option (List α)}
    {ys? : Option (List β)} (h : Option.Rel (List.Forall₂ R) xs? ys?) :
    List.Forall₂ R (xs?.getD []) (ys?.getD []) := by
  cases h with
  | some h => exact h
  | none => exact .nil

namespace Extractor

variable {cwd : Path} {entries entries' : List (String × List String)}

/-- Directives that are given for the texts of paths. -/
def ofTexts (cwd : Path) (entries : List (String × List String)) : Extractor :=
  .ofList cwd (entries.map fun entry => (.ofString entry.1, entry.2))

/-- Given and found under any spelling, directives are the same. -/
theorem ofTexts_eq
    (h : List.Forall₂ (fun e e' => DifferInDetours e.1 e'.1 ∧ e.2 = e'.2) entries entries')
    {written written' : String} (hwritten : DifferInDetours written written') (text : String) :
    ofTexts cwd entries (.ofString written) text =
      ofTexts cwd entries' (.ofString written') text := by
  have hentries : entries.map (fun e => (cwd.normalize (.ofString e.1), e.2)) =
      entries'.map fun e => (cwd.normalize (.ofString e.1), e.2) := by
    induction h with
    | nil => rfl
    | cons he _ ih => rw [List.map_cons, List.map_cons, ih, he.1.normalize_eq cwd, he.2]
  simp only [ofTexts, ofList, List.map_map, Function.comp_def, hentries,
    hwritten.normalize_eq cwd]

/-- Directives that are given in different spellings differ in detours at most. -/
theorem forall₂_ofTexts (h : List.Forall₂ (fun e e' => DifferInDetours e.1 e'.1 ∧
      List.Forall₂ DifferInDetours e.2 e'.2) entries entries') (p : Path) (text : String) :
    List.Forall₂ (fun d d' => DifferInDetours d.spelling d'.spelling)
      (ofTexts cwd entries p text).directives (ofTexts cwd entries' p text).directives := by
  have hentries : List.Forall₂ (fun x y => x.1 = y.1 ∧ List.Forall₂ DifferInDetours x.2 y.2)
      (entries.map fun e => (cwd.normalize (.ofString e.1), e.2))
      (entries'.map fun e => (cwd.normalize (.ofString e.1), e.2)) := by
    refine List.forall₂_map_left_iff.2 (List.forall₂_map_right_iff.2 (h.imp ?_))
    exact fun e e' he => ⟨he.1.normalize_eq cwd, he.2⟩
  simp only [ofTexts, ofList, List.map_map, Function.comp_def, Directive.ofPaths]
  refine List.forall₂_map_left_iff.2 (List.forall₂_map_right_iff.2 ?_)
  simp only [Directive.spelling_ofString]
  exact forall₂_getD (Table.rel_find?_ofList hentries (cwd.normalize p))

end Extractor

/-- The directives of two scripts that import each other, with detours in the path of the first
script and in two of its imports. -/
def withDetours : Extractor :=
  .ofTexts .top [("/scripts/x/../a", ["./b", "a", "gone", "b"]), ("/scripts/b", ["../scripts/a"])]

theorem differInDetours_root : DifferInDetours "scripts/a" "scripts//a" :=
  .rel _ _ ⟨⟨0, ["scripts", "a"], by decide, by decide⟩,
    ⟨0, ["scripts", "", "a"], by decide, by decide⟩,
    ⟨rfl, ["scripts"], [""], ["a"], .empty, rfl, rfl⟩, by decide +kernel, by decide +kernel⟩

theorem differInDetours_script : DifferInDetours "/scripts/a" "/scripts/x/../a" :=
  .rel _ _ ⟨⟨1, ["scripts", "a"], by decide, by decide⟩,
    ⟨1, ["scripts", "x", "..", "a"], by decide, by decide⟩,
    ⟨rfl, ["scripts"], ["x", ".."], ["a"], .outAndBack (by decide), rfl, rfl⟩,
    by decide +kernel, by decide +kernel⟩

theorem differInDetours_import : DifferInDetours "b" "./b" :=
  .rel _ _ ⟨⟨0, ["b"], by decide, by decide⟩, ⟨0, [".", "b"], by decide, by decide⟩,
    ⟨rfl, [], ["."], ["b"], .self, rfl, rfl⟩, by decide +kernel, by decide +kernel⟩

theorem spelledAlike_withDetours : Resolver.knot.SpelledAlike withDetours := by
  have hknot : Resolver.knot.extractor = .ofTexts .top
      [("/scripts/a", ["b", "a", "gone", "./b"]), ("/scripts/b", ["../scripts/a"])] := rfl
  have himports : List.Forall₂ DifferInDetours
      ["b", "a", "gone", "./b"] ["./b", "a", "gone", "b"] :=
    .cons differInDetours_import
      (.cons (.refl _) (.cons (.refl _) (.cons differInDetours_import.symm .nil)))
  intro p text
  rw [hknot]
  exact Extractor.forall₂_ofTexts (.cons ⟨differInDetours_script, himports⟩
    (.cons ⟨.refl _, .cons (.refl _) .nil⟩ .nil)) p text

/-- Normalization comes to a form of its own for each path: from an absolute folder in normal form
it leads to an absolute path of ordinary segments, which it leaves as it is, given as a path or as
its text. Detours in the text make no difference to it, so resolvers take all spellings of an import
as one, and directives that are given beforehand are found under any spelling. -/
theorem Path.canonical_normalize {cwd : Path} (hcwd : cwd.IsNormal) :
    (∀ p : Path, p.IsRead →
      (cwd.normalize p).IsNormal ∧ cwd.normalize (cwd.normalize p) = cwd.normalize p) ∧
    (∀ written, (ofString written).IsRead ∧
      ∀ base : Path, base.normalize (ofString (cwd.normalize (ofString written)).toString) =
        cwd.normalize (ofString written)) ∧
    (∀ written written', DifferInDetours written written' →
      cwd.normalize (ofString written) = cwd.normalize (ofString written')) ∧
    (∀ r : Resolver, r.IgnoresSpelling) ∧
    ∀ entries entries' written written' text,
      List.Forall₂ (fun e e' => DifferInDetours e.1 e'.1 ∧ e.2 = e'.2) entries entries' →
      DifferInDetours written written' →
      Extractor.ofTexts cwd entries (ofString written) text =
        Extractor.ofTexts cwd entries' (ofString written') text := by
  refine ⟨fun p hp => ⟨hp.isNormal_normalize hcwd, hp.normalize_normalize hcwd⟩,
    fun written => ⟨isRead_ofString written, fun base => ?_⟩,
    fun written written' h => h.normalize_eq cwd, Resolver.ignoresSpelling,
    fun entries entries' written written' text h hwritten => Extractor.ofTexts_eq h hwritten text⟩
  exact ((isRead_ofString written).isNormal_normalize hcwd).normalize_ofString base

theorem Path.canonical_normalize_knot :
    Path.top.IsNormal ∧ (Path.ofString "//x/../../b/.").IsRead ∧
    (Path.top.normalize (.ofString "//x/../../b/.")).IsNormal ∧
    (Path.top.normalize (.ofString "//x/../../b/.")).toString = "//b" ∧
    DifferInDetours "scripts/a" "scripts//a" ∧ Resolver.knot.SpelledAlike withDetours ∧
    (∃ g g', (Resolver.knot.resolve "scripts/a").outcome = .ok g ∧
      ((Resolver.knot.withExtractor withDetours).resolve "scripts//a").outcome = .ok g' ∧
      g.SameScripts g' ∧ g.nodes.keys = [.ofString "/scripts/a", .ofString "/scripts/b"]) ∧
    Extractor.ofTexts .top [("/scripts/a", ["b"])] (.ofString "/scripts/x/../a") "" =
      Extractor.ofTexts .top [("/scripts/x/../a", ["b"])] (.ofString "/scripts/a") "" := by
  have htop : Path.top.IsNormal := ⟨by decide, by decide⟩
  obtain ⟨hnormal, hread, -, hresolvers, hextractors⟩ := canonical_normalize htop
  have hwritten : (Path.ofString "//x/../../b/.").IsRead := (hread _).1
  have hentries : Extractor.ofTexts .top [("/scripts/a", ["b"])] (.ofString "/scripts/x/../a") "" =
      Extractor.ofTexts .top [("/scripts/x/../a", ["b"])] (.ofString "/scripts/a") "" :=
    hextractors [("/scripts/a", ["b"])] [("/scripts/x/../a", ["b"])] _ _ ""
      (.cons ⟨differInDetours_script, rfl⟩ .nil) differInDetours_script.symm
  refine ⟨htop, hwritten, (hnormal _ hwritten).1, by decide +kernel, differInDetours_root,
    spelledAlike_withDetours, ?_, hentries⟩
  have hkeys : (Resolver.knot.resolve "scripts/a").outcome.toOption.map (·.nodes.keys) =
      some [.ofString "/scripts/a", .ofString "/scripts/b"] := by decide +kernel
  have hgraphs := (hresolvers Resolver.knot).graph withDetours _ _ spelledAlike_withDetours
    differInDetours_root
  generalize (Resolver.knot.resolve "scripts/a").outcome = outcome at hkeys hgraphs ⊢
  generalize ((Resolver.knot.withExtractor withDetours).resolve "scripts//a").outcome = outcome'
    at hgraphs ⊢
  cases hgraphs with
  | @results g g' hsame => exact ⟨g, g', rfl, rfl, hsame, by simpa [Except.toOption] using hkeys⟩
  | failures _ => simp [Except.toOption] at hkeys

end ScriptRunner
