import Mathlib.Data.Finset.Card
import ScriptRunner.Proofs.Resolution.Reachability

/-!
# What a resolution checks

The checks of a resolution in the order of the walk, when nothing stops it: each directive of a
script is a check, a script that is met for the first time brings its own checks and those of all
its directives, and a script that has been met brings none. The first check that is violated decides
how a resolution fails.

## Main definitions

* `Check`, `Resolver.violation?` - one thing to check, and the failure that its violation is.
* `Resolver.Inspects` - the checks for directives of a script, and the scripts met in their course.
* `Resolver.InspectsRoot` - the checks for a root script.

## Main statements

* `Resolver.existsUnique_inspectsRoot` - every root of a file system with finitely many files has
  exactly one list of checks.
* `Resolver.Inspects.mem_checks_iff` - what is checked.
* `Resolver.Inspects.depthFirst` - the scripts are met in the order of a depth-first walk.
-/

namespace ScriptRunner

section

variable {α : Type} {P : List α → α → Prop}

theorem exists_split_cons_iff {x : α} {xs : List α} :
    (∃ before y after, x :: xs = before ++ y :: after ∧ P before y) ↔
      P [] x ∨ ∃ before y after, xs = before ++ y :: after ∧ P (x :: before) y := by
  constructor
  · rintro ⟨_ | ⟨a, before⟩, y, after, heq, h⟩
    · obtain ⟨rfl, -⟩ := List.cons.inj heq
      exact .inl h
    · obtain ⟨rfl, rfl⟩ := List.cons.inj heq
      exact .inr ⟨before, y, after, rfl, h⟩
  · rintro (h | ⟨before, y, after, rfl, h⟩)
    · exact ⟨[], x, xs, rfl, h⟩
    · exact ⟨x :: before, y, after, rfl, h⟩

theorem exists_split_append_iff {xs ys : List α} :
    (∃ before y after, xs ++ ys = before ++ y :: after ∧ P before y) ↔
      (∃ before y after, xs = before ++ y :: after ∧ P before y) ∨
        ∃ before y after, ys = before ++ y :: after ∧ P (xs ++ before) y := by
  induction xs generalizing P with
  | nil => simp
  | cons x xs ih =>
    rw [List.cons_append, exists_split_cons_iff, exists_split_cons_iff, ih, or_assoc]
    rfl

end

/-- One thing that a resolution checks. -/
inductive Check where
  /-- A script has a name. -/
  | name (path : Path)
  /-- The root, written in some way, is a file. -/
  | existence (path : Path) (written : String)
  /-- A script can be read. -/
  | reading (path : Path)
  /-- None of the scripts that were met before has the name of a script. -/
  | collision (path : Path) (earlier : List Path)
  /-- A directive of a script leads to a file, as far as it has to. -/
  | directive (declaring : Path) (d : Directive)

namespace Resolver

variable (r : Resolver)

/-- The failure that the violation of a check is, if the check is violated. -/
def violation? : Check → Option ResolutionFailure
  | .name p =>
    match r.settings.naming.symbolName? p with
    | none => some (.misplaced p r.settings.naming.marker)
    | some _ => none
  | .existence p written =>
    match r.files.isFile p with
    | .error fault => some (.unreadable (.file fault p))
    | .ok false => some (.notFound written p none none)
    | .ok true => none
  | .reading p =>
    match r.files.readText r.settings.codec p with
    | .error error => some (.unreadable error)
    | .ok _ => none
  | .collision p earlier =>
    match r.settings.naming.symbolName? p with
    | none => none
    | some name =>
      (earlier.find? fun q => r.settings.naming.symbolName? q == some name).map fun existing =>
        .graph (.collision name existing p)
  | .directive declaring d =>
    match r.files.isFile (r.target declaring d) with
    | .error fault => some (.unreadable (.file fault (r.target declaring d)))
    | .ok false =>
      if r.settings.strictImports then
        some (.notFound d.path (r.target declaring d) (some declaring) d.location)
      else none
    | .ok true => none

/-- The directives of the script at a path, none if it cannot be read. -/
def directivesAt (p : Path) : List Directive :=
  match r.files.readText r.settings.codec p with
  | .ok text => (r.extractor p text).directives
  | .error _ => []

theorem directivesAt_eq {p : Path} {text : String}
    (h : r.files.readText r.settings.codec p = .ok text) :
    r.directivesAt p = (r.extractor p text).directives := by
  simp only [directivesAt, h]

theorem importsOf_eq_located (p : Path) : r.importsOf p = r.located p (r.directivesAt p) := by
  unfold importsOf directivesAt
  cases r.files.readText r.settings.codec p <;> rfl

/-- The checks for directives of a script, in order, and the scripts that are met for the first time
in their course, when some scripts have been met before. -/
inductive Inspects :
    (met : List Path) → (declaring : Path) → List Directive → List Check → (entered : List Path) →
      Prop
  | done (met : List Path) (p : Path) : Inspects met p [] [] []
  | missing {met entered : List Path} {p : Path} {d : Directive} {ds : List Directive}
      {checks : List Check} (hfile : ¬ r.files.HasFile (r.target p d))
      (hrest : Inspects met p ds checks entered) :
      Inspects met p (d :: ds) (.directive p d :: checks) entered
  | seen {met entered : List Path} {p : Path} {d : Directive} {ds : List Directive}
      {checks : List Check} (hfile : r.files.HasFile (r.target p d)) (hmet : r.target p d ∈ met)
      (hrest : Inspects met p ds checks entered) :
      Inspects met p (d :: ds) (.directive p d :: checks) entered
  | enter {met below after : List Path} {p q : Path} {d : Directive} {ds : List Directive}
      {checks checks' : List Check} (htarget : r.target p d = q) (hfile : r.files.HasFile q)
      (hnew : q ∉ met) (hbelow : Inspects (met ++ [q]) q (r.directivesAt q) checks below)
      (hafter : Inspects (met ++ q :: below) p ds checks' after) :
      Inspects met p (d :: ds)
        (.directive p d :: .name q :: .reading q :: .collision q met :: (checks ++ checks'))
        (q :: (below ++ after))

/-- The checks for a root, and the scripts that are met in their course. -/
inductive InspectsRoot (written : String) (root : Path) : List Check → (entered : List Path) → Prop
  | root {checks : List Check} {entered : List Path}
      (hbelow : r.Inspects [root] root (r.directivesAt root) checks entered) :
      InspectsRoot written root
        (.name root :: .existence root written :: .reading root :: .collision root [] :: checks)
        (root :: entered)

/-- What there is to check about a script that is met after others. -/
def ChecksScript (earlier : List Path) (q : Path) (c : Check) : Prop :=
  c = .name q ∨ c = .reading q ∨ c = .collision q earlier ∨
    ∃ d ∈ r.directivesAt q, c = .directive q d

variable {r}

namespace Inspects

variable {met entered : List Path} {p : Path} {ds : List Directive} {checks : List Check}

/-- Directives have only one list of checks. -/
theorem unique (h : r.Inspects met p ds checks entered) {checks' : List Check}
    {entered' : List Path} (h' : r.Inspects met p ds checks' entered') :
    checks = checks' ∧ entered = entered' := by
  induction h generalizing checks' entered' with
  | done => cases h'; exact ⟨rfl, rfl⟩
  | missing hfile _ ih =>
    cases h' with
    | missing _ hrest => obtain ⟨rfl, rfl⟩ := ih hrest; exact ⟨rfl, rfl⟩
    | seen hfile' _ _ => exact absurd hfile' hfile
    | enter htarget hfile' _ _ _ => exact absurd (htarget ▸ hfile') hfile
  | seen hfile hmet _ ih =>
    cases h' with
    | missing hfile' _ => exact absurd hfile hfile'
    | seen _ _ hrest => obtain ⟨rfl, rfl⟩ := ih hrest; exact ⟨rfl, rfl⟩
    | enter htarget _ hnew _ _ => exact absurd (htarget ▸ hmet) hnew
  | enter htarget hfile hnew _ _ ihBelow ihAfter =>
    subst htarget
    cases h' with
    | missing hfile' _ => exact absurd hfile hfile'
    | seen _ hmet _ => exact absurd hmet hnew
    | enter htarget' _ _ hbelow hafter =>
      subst htarget'
      obtain ⟨rfl, rfl⟩ := ihBelow hbelow
      obtain ⟨rfl, rfl⟩ := ihAfter hafter
      exact ⟨rfl, rfl⟩

/-- What is checked: the directives at hand, and what there is to check about each script that is
met. -/
theorem mem_checks_iff (h : r.Inspects met p ds checks entered) (c : Check) :
    c ∈ checks ↔ (∃ d ∈ ds, c = .directive p d) ∨
      ∃ before q after, entered = before ++ q :: after ∧ r.ChecksScript (met ++ before) q c := by
  induction h with
  | done => simp
  | missing _ _ ih | seen _ _ _ ih => simp only [List.mem_cons, ih, exists_eq_or_imp, or_assoc]
  | @enter met below after p q d ds checks checks' _ _ _ _ _ ihBelow ihAfter =>
    rw [exists_split_cons_iff, exists_split_append_iff, ChecksScript, List.append_nil]
    simp only [List.mem_cons, List.mem_append, ihBelow, ihAfter, exists_eq_or_imp,
      List.append_assoc, List.cons_append, List.nil_append]
    -- Both sides are the same cases, in another order.
    refine iff_of_eq ?_
    ac_rfl

/-- The scripts are met in the order of a depth-first walk over the files that the directives lead
to. -/
theorem depthFirst (h : r.Inspects met p ds checks entered) :
    ∃ left, DepthFirst r.importsOf {q | q ∈ met} (r.located p ds) entered left := by
  induction h with
  | done => exact ⟨[], .done _⟩
  | missing hfile _ ih => simpa [located, hfile] using ih
  | @seen met entered p d ds checks hfile hmet _ ih =>
    obtain ⟨left, h⟩ := ih
    have hmet : r.target p d ∈ {q | q ∈ met} := hmet
    exact ⟨left, by simpa [located, hfile] using h.skip hmet⟩
  | @enter met below after p q d ds checks checks' htarget hfile hnew _ _ ihBelow ihAfter =>
    subst htarget
    obtain ⟨belowLeft, hbelow⟩ := ihBelow
    obtain ⟨afterLeft, hafter⟩ := ihAfter
    have hinsert : {a | a ∈ met ++ [r.target p d]} = insert (r.target p d) {a | a ∈ met} := by
      ext a
      simp [or_comm]
    have hunion : {a | a ∈ met ++ r.target p d :: below} =
        insert (r.target p d) {a | a ∈ met} ∪ {a | a ∈ below} := by
      ext a
      simp [or_left_comm, or_assoc]
    rw [hinsert, ← r.importsOf_eq_located] at hbelow
    rw [hunion] at hafter
    refine ⟨belowLeft ++ r.target p d :: afterLeft, ?_⟩
    have hnew : r.target p d ∉ {a | a ∈ met} := hnew
    simpa [located, hfile] using DepthFirst.enter hnew hbelow hafter

end Inspects

/-- Directives have a list of checks if finitely many paths cover the files that have not been met.
The induction is on these paths: a script that is met is none of them any more. -/
theorem exists_inspects (unmet : Finset Path) :
    ∀ (met : List Path) (p : Path) (ds : List Directive),
    (∀ q, r.files.HasFile q → q ∉ met → q ∈ unmet) →
      ∃ checks entered, r.Inspects met p ds checks entered := by
  induction unmet using Finset.strongInduction with
  | H unmet ih =>
    intro met p ds
    induction ds generalizing met with
    | nil => exact fun _ => ⟨[], [], .done met p⟩
    | cons d ds ihRest =>
      intro hunmet
      by_cases hfile : r.files.HasFile (r.target p d)
      swap
      · obtain ⟨checks, entered, h⟩ := ihRest met hunmet
        exact ⟨_, _, .missing hfile h⟩
      by_cases hmet : r.target p d ∈ met
      · obtain ⟨checks, entered, h⟩ := ihRest met hunmet
        exact ⟨_, _, .seen hfile hmet h⟩
      · have hless := Finset.erase_ssubset (hunmet _ hfile hmet)
        obtain ⟨checks, below, hbelow⟩ := ih _ hless (met ++ [r.target p d]) (r.target p d)
          (r.directivesAt (r.target p d)) fun q hq hnot => by
            simp only [List.mem_append, List.mem_singleton, not_or] at hnot
            exact Finset.mem_erase.2 ⟨hnot.2, hunmet q hq hnot.1⟩
        obtain ⟨checks', after, hafter⟩ := ihRest (met ++ r.target p d :: below) fun q hq hnot =>
          hunmet q hq fun hin => hnot (List.mem_append_left _ hin)
        exact ⟨_, _, .enter rfl hfile hmet hbelow hafter⟩

/-- A root has exactly one list of checks. -/
theorem existsUnique_inspectsRoot (hfiles : r.files.Bounded) (written : String) (root : Path) :
    ∃ checks entered, r.InspectsRoot written root checks entered ∧
      ∀ checks' entered', r.InspectsRoot written root checks' entered' →
        checks' = checks ∧ entered' = entered := by
  obtain ⟨paths, -, hpaths⟩ := hfiles
  obtain ⟨checks, entered, h⟩ := exists_inspects paths.toFinset [root] root (r.directivesAt root)
    fun q hq _ => List.mem_toFinset.2 (hpaths q hq)
  refine ⟨_, _, .root h, fun checks' entered' h' => ?_⟩
  obtain ⟨h'⟩ := h'
  obtain ⟨rfl, rfl⟩ := h'.unique h
  exact ⟨rfl, rfl⟩

namespace InspectsRoot

variable {written : String} {root : Path} {checks : List Check} {entered : List Path}

/-- What is checked about a root: that it exists, and what there is to check about each script that
is met. -/
theorem mem_checks_iff (h : r.InspectsRoot written root checks entered) (c : Check) :
    c ∈ checks ↔ c = .existence root written ∨
      ∃ before q after, entered = before ++ q :: after ∧ r.ChecksScript before q c := by
  obtain ⟨h⟩ := h
  rw [exists_split_cons_iff, ChecksScript]
  simp only [List.mem_cons, h.mem_checks_iff, List.singleton_append]
  refine iff_of_eq ?_
  ac_rfl

/-- The scripts are met in the order of a depth-first walk from the root. -/
theorem depthFirst (h : r.InspectsRoot written root checks entered) :
    ∃ left, DepthFirst r.importsOf ∅ [root] entered left := by
  obtain ⟨h⟩ := h
  obtain ⟨left, hwalk⟩ := h.depthFirst
  have hroot : {q | q ∈ [root]} = insert root (∅ : Set Path) := by
    ext q
    simp
  rw [hroot, ← r.importsOf_eq_located] at hwalk
  exact ⟨_, by simpa using DepthFirst.enter (Set.notMem_empty root) hwalk (.done _)⟩

/-- The scripts that are met are those that the root leads to. -/
theorem mem_entered_iff (h : r.InspectsRoot written root checks entered) (p : Path) :
    p ∈ entered ↔ Relation.ReflTransGen r.Imports root p := by
  obtain ⟨left, hwalk⟩ := h.depthFirst
  have hstep : (fun p q => q ∈ r.importsOf p) = r.Imports := by
    funext p q
    exact propext (r.mem_importsOf_iff p q)
  rw [hwalk.mem_entered_iff, LeadsTo, hstep]

end InspectsRoot

end Resolver

end ScriptRunner
