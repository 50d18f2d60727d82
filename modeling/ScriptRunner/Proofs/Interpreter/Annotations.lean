import ScriptRunner.Directive
import ScriptRunner.Proofs.Interpreter.Reordering
import ScriptRunner.Proofs.Script.ReadingBack

/-!
# What becomes of annotations

Annotations are looked at twice. Whoever looks for imports reads the header of a text, and whoever
evaluates a script warns about the annotations that mean nothing. The two agree: both read the same
texts, and every annotation is either a directive or the reason of one warning.

## Main definitions

* `DividesInto` - annotations are shared out among directives and warnings.
* `isWarningAt` - a diagnostic is a warning at a place.
* `AnnotationsAgree` - what is found in a script, and what its evaluation says about it.

## Main statements

* `Program.isHeader_of_parse` - the header is what stands before the first statement.
* `dividesInto_warnings` - directives and warnings come from different annotations.
* `annotations_divided` - the directives and the diagnostics of the units of a request.
-/

namespace ScriptRunner

namespace Script

/-- The header of a script is a first part of its annotations, and it holds those that stand before
all statements. -/
structure Program.IsHeader (p : Program) : Prop where
  begins : p.header <+: p.annotations
  inHeader_iff : ∀ a ∈ p.annotations,
    a.inHeader = true ↔ ∀ s ∈ p.statements, a.span.Precedes s.span

section

variable {L : Type} {items : List (Item L ScriptText)}

/-- Behind a statement there is no header. -/
theorem not_inHeader_of_mem (items : List (Item L ScriptText)) :
    ∀ a ∈ annotationsOf false items, a.inHeader = false := by
  induction items with
  | nil => simp [annotationsOf]
  | cons item items ih =>
    cases item with
    | annotate target name argument span => exact List.forall_mem_cons.2 ⟨rfl, ih⟩
    | statement s => exact ih

theorem header_begins (items : List (Item L ScriptText)) :
    (annotationsOf true items).filter (·.inHeader) <+: annotationsOf true items := by
  induction items with
  | nil => exact List.prefix_rfl
  | cons item items ih =>
    cases item with
    | annotate target name argument span =>
      rw [annotationsOf, List.filter_cons_of_pos rfl]
      exact (List.prefix_cons_inj _).2 ih
    | statement s =>
      have hnone : (annotationsOf false items).filter (·.inHeader) = [] :=
        List.filter_eq_nil_iff.2 fun a ha => by simp [not_inHeader_of_mem items a ha]
      rw [annotationsOf, hnone]
      exact List.nil_prefix

/-- Of items that stand one after another, the annotations in the header stand before all
statements. -/
theorem inHeader_annotationsOf_iff (hlt : ∀ i ∈ items, i.span.start < i.span.stop)
    (h : items.Pairwise fun i j => i.span.Precedes j.span) : ∀ a ∈ annotationsOf true items,
      a.inHeader = true ↔ ∀ s ∈ statementsOf items, a.span.Precedes s.span := by
  induction items with
  | nil => simp [annotationsOf]
  | cons item items ih =>
    obtain ⟨hitem, hitems⟩ := List.forall_mem_cons.1 hlt
    obtain ⟨hfirst, hrest⟩ := List.pairwise_cons.1 h
    have hbehind : ∀ span ∈ items.map Item.span,
        item.span.Precedes span ∧ span.start < span.stop := by
      intro span hspan
      obtain ⟨j, hj, rfl⟩ := List.mem_map.1 hspan
      exact ⟨hfirst j hj, hitems j hj⟩
    intro a ha
    cases item with
    | annotate target name argument span =>
      rcases List.mem_cons.1 ha with rfl | ha
      · refine iff_of_true rfl fun s hs => (hbehind _ ?_).1
        exact (sublist_statementsOf items).subset (List.mem_map_of_mem hs)
      · exact ih hitems hrest a ha
    | statement st =>
      refine iff_of_false (by simp [not_inHeader_of_mem items a ha]) fun hall => ?_
      obtain ⟨hprecedes, hlt⟩ :=
        hbehind _ ((sublist_annotationsOf false items).subset (List.mem_map_of_mem ha))
      have hback : a.span.stop ≤ st.span.start := hall st List.mem_cons_self
      exact absurd (hitem.trans_le (hprecedes.trans (hlt.le.trans hback))) (lt_irrefl _)

end

/-- Annotations that stand one after another have different spans. -/
theorem Program.InSourceOrder.nodup_spans {p : Program} (h : p.InSourceOrder) :
    (p.annotations.map (·.span)).Nodup := by
  have hne : p.annotations.Pairwise fun a b => a.span ≠ b.span := by
    refine h.annotations.imp_of_mem fun {a b} ha hb hprecedes heq => ?_
    have hlt := h.annotations_lt b hb
    rw [Span.Precedes, heq] at hprecedes
    exact absurd hlt (not_lt_of_ge hprecedes)
  exact List.pairwise_map.2 hne

/-- An annotation and a statement have different spans. -/
theorem Program.InSourceOrder.span_ne {p : Program} (h : p.InSourceOrder) {a : Annotation}
    (ha : a ∈ p.annotations) {s : Statement Value} (hs : s ∈ p.statements) : s.span ≠ a.span := by
  intro heq
  have hlt := h.annotations_lt a ha
  rcases h.apart a ha s hs with hprecedes | hprecedes <;> rw [Span.Precedes, heq] at hprecedes <;>
    exact absurd hlt (not_lt_of_ge hprecedes)

section

variable [CharacterNames] {file text : String} {p : Program}

/-- A script is made of items that stand one after another. -/
theorem exists_pairwise_items_of_parse (h : parse file text = .ok p) :
    ∃ items : List (Item Value ScriptText), p = .ofItems file items ∧
      (∀ i ∈ items, i.span.start < i.span.stop) ∧
      items.Pairwise fun i j => i.span.Precedes j.span := by
  obtain ⟨script, items, hscript, hitems, rfl⟩ := exists_items_of_parse h
  obtain ⟨horder, -⟩ := hscript.inOrder
  obtain ⟨hlt, hpairwise⟩ := ScriptTree.pairwise_items horder
  have hspans : script.items.map Item.span = items.map Item.span := by
    rw [← List.forall₂_eq_eq_eq, List.forall₂_map_left_iff, List.forall₂_map_right_iff]
    exact hitems.imp fun i i' hi => (Item.span_settle hi).symm
  refine ⟨items, rfl, fun i' hi' => ?_, ?_⟩
  · obtain ⟨i, hi, hsettle⟩ := exists_of_forall₂_right hitems hi'
    rw [Item.span_settle hsettle]
    exact hlt i hi
  · have hpairwise := List.pairwise_map.2 hpairwise
    rw [hspans] at hpairwise
    exact List.pairwise_map.1 hpairwise

theorem inSourceOrder_of_parse (h : parse file text = .ok p) : p.InSourceOrder := by
  obtain ⟨items, rfl, hlt, hpairwise⟩ := exists_pairwise_items_of_parse h
  exact Program.inSourceOrder_ofItems file hlt hpairwise

theorem isHeader_of_parse (h : parse file text = .ok p) : p.IsHeader := by
  obtain ⟨items, rfl, hlt, hpairwise⟩ := exists_pairwise_items_of_parse h
  exact ⟨header_begins items, inHeader_annotationsOf_iff hlt hpairwise⟩

end

end Script

/-- Spans are told apart by their places in a file. -/
theorem Location.ofSpan_inj {file file' : String} {s s' : Span} :
    Location.ofSpan file s = .ofSpan file' s' ↔ file = file' ∧ s = s' := by
  obtain ⟨⟨line, column⟩, ⟨endLine, endColumn⟩⟩ := s
  obtain ⟨⟨line', column'⟩, ⟨endLine', endColumn'⟩⟩ := s'
  simp only [ofSpan, Location.mk.injEq, Span.mk.injEq, Position.mk.injEq, Int.natCast_inj,
    and_assoc]

namespace Interpreter

open Script

/-- The annotations of a file are shared out among directives and warnings, in their order: one that
declares an import in the header is a directive with its argument as path, and there is a warning
about any other. Both are placed where the annotation stands. -/
inductive DividesInto (file : String) : List Annotation → List Directive → List Diagnostic → Prop
  | nil : DividesInto file [] [] []
  | directive {a : Annotation} {as : List Annotation} {d : Directive} {ds : List Directive}
      {ws : List Diagnostic} (declares : a.isImport = true ∧ a.inHeader = true)
      (path : d.path = a.argument) (location : d.location = some (.ofSpan file a.span))
      (rest : DividesInto file as ds ws) : DividesInto file (a :: as) (d :: ds) ws
  | warning {a : Annotation} {as : List Annotation} {ds : List Directive} {w : Diagnostic}
      {ws : List Diagnostic} (ignored : ¬ (a.isImport = true ∧ a.inHeader = true))
      (severity : w.severity = .warning) (location : w.location = some (.ofSpan file a.span))
      (rest : DividesInto file as ds ws) : DividesInto file (a :: as) ds (w :: ws)

/-- A diagnostic is a warning at a place. -/
def isWarningAt (place : Location) (d : Diagnostic) : Bool :=
  d.severity == .warning && d.location == some place

theorem isWarningAt_ofSpan {file file' : String} {span span' : Span} {d : Diagnostic}
    (hat : isWarningAt (.ofSpan file span) d = true)
    (hlocation : d.location = some (.ofSpan file' span')) : file' = file ∧ span' = span := by
  simp only [isWarningAt, hlocation, Bool.and_eq_true, beq_iff_eq, Option.some.injEq] at hat
  exact Location.ofSpan_inj.1 hat.2

/-- There is a warning about an annotation unless it declares an import in the header. -/
theorem annotationWarning?_cases (p : Program) (a : Annotation) :
    (a.isImport = true ∧ a.inHeader = true) ∧ annotationWarning? p a = none ∨
      ¬ (a.isImport = true ∧ a.inHeader = true) ∧ ∃ w, annotationWarning? p a = some w ∧
        w.severity = .warning ∧ w.location = some (p.locate a.span) := by
  unfold annotationWarning?
  cases himport : a.isImport with
  | false => exact .inr ⟨by simp, _, rfl, rfl, rfl⟩
  | true =>
    cases hheader : a.inHeader with
    | false => exact .inr ⟨by simp, _, rfl, rfl, rfl⟩
    | true => exact .inl ⟨⟨rfl, rfl⟩, rfl⟩

/-- The two conditions under which annotations are picked exclude each other and leave no annotation
out. -/
theorem dividesInto_warnings (p : Program) :
    DividesInto p.file p.annotations p.directives (annotationWarnings p) := by
  unfold Program.directives Program.header annotationWarnings
  rw [List.filter_filter]
  induction p.annotations with
  | nil => exact .nil
  | cons a as ih =>
    rcases annotationWarning?_cases p a with ⟨hdeclares, hnone⟩ | ⟨hignored, w, hw, hseverity, hat⟩
    · rw [List.filterMap_cons_none hnone, List.filter_cons_of_pos (by simpa using hdeclares),
        List.map_cons]
      exact .directive hdeclares rfl rfl ih
    · rw [List.filterMap_cons_some hw, List.filter_cons_of_neg (by simpa using hignored)]
      exact .warning hignored hseverity hat ih

namespace DividesInto

variable {file : String} {as : List Annotation} {ds : List Directive} {ws : List Diagnostic}

theorem exists_reason (h : DividesInto file as ds ws) {w : Diagnostic} (hw : w ∈ ws) :
    ∃ a ∈ as, w.location = some (.ofSpan file a.span) := by
  induction h with
  | nil => simp at hw
  | directive _ _ _ _ ih =>
    obtain ⟨a, ha, hlocation⟩ := ih hw
    exact ⟨a, List.mem_cons_of_mem _ ha, hlocation⟩
  | @warning b _ _ _ _ _ _ hlocation _ ih =>
    rcases List.mem_cons.1 hw with rfl | hw
    · exact ⟨b, List.mem_cons_self, hlocation⟩
    · obtain ⟨a, ha, hlocation⟩ := ih hw
      exact ⟨a, List.mem_cons_of_mem _ ha, hlocation⟩

/-- There is no warning where no annotation stands. -/
theorem countP_eq_zero (h : DividesInto file as ds ws) {span : Span}
    (hspan : span ∉ as.map (·.span)) : ws.countP (isWarningAt (.ofSpan file span)) = 0 := by
  refine List.countP_eq_zero.2 fun w hw hat => hspan ?_
  obtain ⟨a, ha, hlocation⟩ := h.exists_reason hw
  exact List.mem_map.2 ⟨a, ha, (isWarningAt_ofSpan hat hlocation).2⟩

/-- There is one warning at each annotation that is no directive, and none at the others. -/
theorem countP_eq (h : DividesInto file as ds ws) (hspans : (as.map (·.span)).Nodup)
    {a : Annotation} (ha : a ∈ as) : ws.countP (isWarningAt (.ofSpan file a.span)) =
      if a.isImport = true ∧ a.inHeader = true then 0 else 1 := by
  induction h with
  | nil => simp at ha
  | directive declares _ _ rest ih =>
    obtain ⟨hnew, hspans⟩ := List.nodup_cons.1 hspans
    rcases List.mem_cons.1 ha with rfl | ha
    · rw [if_pos declares, rest.countP_eq_zero hnew]
    · exact ih hspans ha
  | warning ignored severity location rest ih =>
    obtain ⟨hnew, hspans⟩ := List.nodup_cons.1 hspans
    rcases List.mem_cons.1 ha with rfl | ha
    · rw [if_neg ignored, List.countP_cons_of_pos (by simp [isWarningAt, severity, location]),
        rest.countP_eq_zero hnew]
    · rw [List.countP_cons_of_neg, ih hspans ha]
      intro hat
      exact hnew (List.mem_map.2 ⟨_, ha, (isWarningAt_ofSpan hat location).2.symm⟩)

end DividesInto

/-- A warning about a new value stands at the statement that gives it. -/
theorem exists_statement_of_mem_rebindings {bound : List (String × String)} {tasks : List Task}
    {d : Diagnostic} (h : d ∈ rebindings bound tasks) : ∃ u st,
      Task.statement u st ∈ tasks ∧ d.location = some (.ofSpan u.2.file st.span) := by
  obtain ⟨u, name, e, span, hmem, rfl⟩ := exists_val_of_mem_rebindings h
  exact ⟨u, _, hmem, rfl⟩

theorem statement_mem_of_mem_tasks {units : List ParsedUnit} {u : ParsedUnit}
    {st : Statement Value} (h : Task.statement u st ∈ units.flatMap tasksOf) :
    u ∈ units ∧ st ∈ u.2.statements := by
  obtain ⟨v, hv, hmem⟩ := List.mem_flatMap.1 h
  rcases List.mem_cons.1 hmem with hstart | hmem
  · simp at hstart
  · obtain ⟨st', hst, heq⟩ := List.mem_map.1 hmem
    obtain ⟨rfl, rfl⟩ := Task.statement.inj heq
    exact ⟨hv, hst⟩

section

variable [CharacterNames]

/-- Whoever looks for imports in a unit finds no script there for some reason, and no directives. -/
def Unread (u : ScriptUnit) (error : ParseError) : Prop :=
  Extractor.annotations u.path u.text = ⟨[], [.unparsed u.path error]⟩

/-- The report of an evaluation that a text is no script. -/
def parseReport (error : ParseError) : Diagnostic :=
  ⟨.error, error.message, error.location⟩

theorem unread_iff {u : ScriptUnit} {error : ParseError} :
    Unread u error ↔ parse u.path.toString u.text = .error error := by
  unfold Unread Extractor.annotations
  cases parse u.path.toString u.text <;> simp

theorem unread_of_isScript_eq_false {u : ScriptUnit} (h : isScript u = false) :
    ∃ error, Unread u error := by
  unfold isScript at h
  cases hparse : parse u.path.toString u.text with
  | ok p => simp [hparse, Except.toOption] at h
  | error error => exact ⟨error, unread_iff.2 hparse⟩

theorem exists_areScripts_of_read {units : List ScriptUnit}
    (h : ∀ u ∈ units, ∀ error, ¬ Unread u error) : ∃ scripts, AreScripts units scripts := by
  refine exists_areScripts fun u hu => ?_
  by_contra hfalse
  obtain ⟨error, hunread⟩ := unread_of_isScript_eq_false (Bool.not_eq_true _ ▸ hfalse)
  exact h u hu error hunread

theorem AreScripts.not_unread {units : List ScriptUnit} {scripts : List ParsedUnit}
    (h : AreScripts units scripts) {u : ScriptUnit} (hu : u ∈ units) (error : ParseError) :
    ¬ Unread u error := by
  intro hunread
  have hscript := h.isScript hu
  rw [Interpreter.isScript, unread_iff.1 hunread] at hscript
  simp [Except.toOption] at hscript

theorem directives_of_parse {u : ScriptUnit} {p : Program}
    (h : parse u.path.toString u.text = .ok p) :
    (Extractor.annotations u.path u.text).directives = p.directives := by
  simp only [Extractor.annotations, h]

/-- Each unit in which no script is found is reported, and the reports are about nothing else. -/
theorem mem_parseReports_iff {units : List ScriptUnit} {d : Diagnostic} :
    d ∈ (readUnits units).filterMap parseReport? ↔
      ∃ u ∈ units, ∃ error, Unread u error ∧ d = parseReport error := by
  simp only [readUnits, List.mem_filterMap, List.mem_map]
  constructor
  · rintro ⟨_, ⟨u, hu, rfl⟩, hreport⟩
    cases hparse : parse u.path.toString u.text with
    | ok p => simp [hparse, parseReport?] at hreport
    | error error =>
      rw [hparse] at hreport
      exact ⟨u, hu, error, unread_iff.2 hparse, (Option.some.inj hreport).symm⟩
  · rintro ⟨u, hu, error, hunread, rfl⟩
    exact ⟨_, ⟨u, hu, rfl⟩, by rw [unread_iff.1 hunread]; rfl⟩

/-- The evaluation of a request reports a unit that is no script. -/
theorem exists_parseReport_mem {r : Request} (hnames : (r.units.map (·.name)).Nodup)
    {u : ScriptUnit} (hu : u ∈ r.units) {error : ParseError}
    (h : parse u.path.toString u.text = .error error) :
    ∃ e, (evaluate r).outcome = .ok e ∧ parseReport error ∈ e.diagnostics := by
  rcases evaluate_cases hnames with ⟨-, heval⟩ | ⟨scripts, hscripts, -⟩
  · refine ⟨_, by rw [heval], ?_⟩
    exact mem_parseReports_iff.2 ⟨u, hu, error, unread_iff.2 h, rfl⟩
  · exact absurd (unread_iff.2 h) (hscripts.not_unread hu error)

/-- What an evaluation reports about the texts of its units: if there are units in which no script
is found, then their reports and nothing else, and otherwise what a run reports. -/
structure ReportsUnread (r : Request) (e : Evaluation) : Prop where
  rejects : (∃ v ∈ r.units, ∃ error, Unread v error) → ∀ d,
    d ∈ e.diagnostics ↔ ∃ v ∈ r.units, ∃ error, Unread v error ∧ d = parseReport error
  runs : (∀ v ∈ r.units, ∀ error, ¬ Unread v error) →
    ∃ scripts done, AreScripts r.units scripts ∧ ReportsRun scripts done e

/-- What is found in a script of a request, and what its evaluation warns about: the annotations are
shared out among the two. If every unit is a script, then these warnings are given, and if no other
unit is read from the same file, then they are all that is said about the annotations. -/
structure AnnotationsAgree (r : Request) (e : Evaluation) (u : ScriptUnit) (p : Program)
    (warnings : List Diagnostic) : Prop where
  header : p.IsHeader
  divided : DividesInto u.path.toString p.annotations
    (Extractor.annotations u.path u.text).directives warnings
  given : (∀ v ∈ r.units, ∀ error, ¬ Unread v error) → warnings <:+: e.diagnostics
  once : (∀ v ∈ r.units, ∀ error, ¬ Unread v error) →
    (∀ v ∈ r.units, v.path.toString = u.path.toString → v = u) → ∀ a ∈ p.annotations,
      e.diagnostics.countP (isWarningAt (.ofSpan u.path.toString a.span)) =
        if a.isImport = true ∧ a.inHeader = true then 0 else 1

variable {r : Request} {scripts : List ParsedUnit} {u : ParsedUnit}

theorem AreScripts.dividesInto (h : AreScripts r.units scripts) (hu : u ∈ scripts) :
    DividesInto u.1.path.toString u.2.annotations
      (Extractor.annotations u.1.path u.1.text).directives (annotationWarnings u.2) := by
  rw [directives_of_parse (h.parse_eq hu), ← h.file_eq hu]
  exact dividesInto_warnings u.2

/-- The warnings about the annotations of a file are those about its unit. -/
theorem countP_annotationWarnings (h : AreScripts r.units scripts)
    (hnames : (r.units.map (·.name)).Nodup) (hu : u ∈ scripts)
    (hpath : ∀ v ∈ r.units, v.path.toString = u.1.path.toString → v = u.1) (span : Span) :
    (scripts.flatMap fun v => annotationWarnings v.2).countP
        (isWarningAt (.ofSpan u.1.path.toString span)) =
      (annotationWarnings u.2).countP (isWarningAt (.ofSpan u.1.path.toString span)) := by
  have hother : ∀ others : List ParsedUnit, (∀ v ∈ others, v ∈ scripts ∧ v ≠ u) →
      (others.flatMap fun v => annotationWarnings v.2).countP
        (isWarningAt (.ofSpan u.1.path.toString span)) = 0 := by
    intro others hothers
    refine List.countP_eq_zero.2 fun d hd hat => ?_
    obtain ⟨v, hv, hd⟩ := List.mem_flatMap.1 hd
    obtain ⟨hmem, hne⟩ := hothers v hv
    obtain ⟨a, -, hlocation⟩ := (h.dividesInto hmem).exists_reason hd
    have hunit := hpath v.1 ((h.mem_iff v).1 hmem).1 (isWarningAt_ofSpan hat hlocation).1
    exact hne (h.eq_of_unit_eq hmem hu hunit)
  obtain ⟨before, after, rfl⟩ := List.append_of_mem hu
  rw [← h.map_name] at hnames
  have hnodup : (before ++ u :: after).Nodup := hnames.of_map
  obtain ⟨-, hafter, hbefore⟩ := List.nodup_append.1 hnodup
  rw [List.flatMap_append, List.flatMap_cons, List.countP_append, List.countP_append,
    hother before, hother after, Nat.zero_add, Nat.add_zero]
  · exact fun v hv => ⟨by simp [hv], fun heq => (List.nodup_cons.1 hafter).1 (heq ▸ hv)⟩
  · exact fun v hv => ⟨by simp [hv], hbefore v hv u List.mem_cons_self⟩

/-- No warning about a new value stands at an annotation. -/
theorem countP_rebindings (h : AreScripts r.units scripts) (hu : u ∈ scripts)
    (hpath : ∀ v ∈ r.units, v.path.toString = u.1.path.toString → v = u.1) {done : List Task}
    (hdone : done <+: scripts.flatMap tasksOf) {a : Annotation} (ha : a ∈ u.2.annotations) :
    (rebindings [] done).countP (isWarningAt (.ofSpan u.1.path.toString a.span)) = 0 := by
  have horder := inSourceOrder_of_parse (h.parse_eq hu)
  refine List.countP_eq_zero.2 fun d hd hat => ?_
  obtain ⟨v, st, htask, hlocation⟩ := exists_statement_of_mem_rebindings hd
  obtain ⟨hv, hst⟩ := statement_mem_of_mem_tasks (hdone.subset htask)
  rw [h.file_eq hv] at hlocation
  obtain ⟨hfile, hspan⟩ := isWarningAt_ofSpan hat hlocation
  obtain rfl := h.eq_of_unit_eq hv hu (hpath v.1 ((h.mem_iff v).1 hv).1 hfile)
  exact horder.span_ne ha hst hspan

/-- The evaluation of scripts warns about the annotations of a script that are no directives. -/
theorem EndsAt.annotationsAgree {e : Evaluation} {done : List Task} {q : Progress}
    (hends : EndsAt r scripts e done q) (h : AreScripts r.units scripts)
    (hnames : (r.units.map (·.name)).Nodup) (hu : u ∈ scripts) {report? : Option Diagnostic}
    (heq : e.diagnostics = q.1.diagnostics ++ report?.toList)
    (herror : ∀ d ∈ report?, d.severity = .error) :
    AnnotationsAgree r e u.1 u.2 (annotationWarnings u.2) := by
  have hparse := h.parse_eq hu
  have hdivided := h.dividesInto hu
  rw [diagnostics_of_performAll hends.performed] at heq
  refine ⟨isHeader_of_parse hparse, hdivided, fun _ => ?_, fun _ hpath a ha => ?_⟩
  · obtain ⟨before, after, rfl⟩ := List.append_of_mem hu
    refine ⟨before.flatMap fun v => annotationWarnings v.2,
      (after.flatMap fun v => annotationWarnings v.2) ++ rebindings [] done ++ report?.toList, ?_⟩
    simp [heq]
  · have hsilent : report?.toList.countP (isWarningAt (.ofSpan u.1.path.toString a.span)) = 0 := by
      refine List.countP_eq_zero.2 fun d hd hat => ?_
      simp [isWarningAt, herror d (Option.mem_toList.1 hd)] at hat
    rw [heq, List.countP_append, List.countP_append, countP_annotationWarnings h hnames hu hpath,
      countP_rebindings h hu hpath hends.begins ha, hsilent]
    exact hdivided.countP_eq (inSourceOrder_of_parse hparse).nodup_spans ha

/-- The directives of a unit and the diagnostics of an evaluation come from the same reading of its
text. Whoever looks for imports finds no script in it exactly if the evaluation reports that, for
the same reason; and the annotations of a script are shared out among its directives and its
warnings. -/
theorem annotations_divided {v : ScriptUnit} (hnames : (r.units.map (·.name)).Nodup)
    (hv : v ∈ r.units) :
    ∃ e, (evaluate r).outcome = .ok e ∧ ReportsUnread r e ∧
      (∀ error, Unread v error ↔
        parse v.path.toString v.text = .error error ∧ parseReport error ∈ e.diagnostics) ∧
      ∀ p, parse v.path.toString v.text = .ok p →
        ∃ warnings, AnnotationsAgree r e v p warnings := by
  rcases evaluate_cases hnames with ⟨hnone, heval⟩ | ⟨scripts, hscripts, -⟩
  · have hsome : ¬ ∀ v ∈ r.units, ∀ error, ¬ Unread v error := fun hall =>
      (exists_areScripts_of_read hall).elim hnone
    refine ⟨_, by rw [heval], ⟨fun _ d => mem_parseReports_iff, fun hall => absurd hall hsome⟩,
      fun error => ?_, fun p hp => ⟨annotationWarnings p, ?_⟩⟩
    · rw [← unread_iff, iff_self_and]
      exact fun hunread => mem_parseReports_iff.2 ⟨v, hv, error, hunread, rfl⟩
    · refine ⟨isHeader_of_parse hp, ?_, fun hall => absurd hall hsome,
        fun hall => absurd hall hsome⟩
      rw [directives_of_parse hp, ← file_of_parse hp]
      exact dividesInto_warnings p
  · have hread : ∀ v ∈ r.units, ∀ error, ¬ Unread v error := fun v hv => hscripts.not_unread hv
    obtain ⟨e, done, q, report?, he, hends, -, heq, herror⟩ :=
      exists_endsAt_reported hnames hscripts
    refine ⟨e, he, ⟨?_, fun _ => ?_⟩, fun error => ?_, fun p hp => ⟨annotationWarnings p, ?_⟩⟩
    · rintro ⟨v, hv, error, hunread⟩
      exact absurd hunread (hread v hv error)
    · exact ⟨scripts, done, hscripts, reportsRun_of_endsAt hnames hscripts he hends⟩
    · rw [← unread_iff]
      exact iff_of_false (hread v hv error) fun h => hread v hv error h.1
    · have hmem : (v, p) ∈ scripts := (hscripts.mem_iff (v, p)).2 ⟨hv, hp⟩
      exact hends.annotationsAgree hscripts hnames hmem heq herror

end

/-- A script that imports another one, with a foreign annotation in its header and an import that
comes too late. It gives one name two values. -/
def annotated : Request where
  root := ⟨.ofString "/w/scripts/main.custom.kts", "Main",
    "@file:Import(\"a\")\n@file:Since(\"1\")\nval x = 1\n@file:Import(\"b\")\nval x = 2\n"⟩
  imports := [⟨.ofString "/w/scripts/a.custom.kts", "A", "@file:Import(\"c\")\nval y = 1\n"⟩]
  dependencies := .ofList [("A", []), ("Main", ["A"])]

attribute [local instance] CharacterNames.none

theorem annotations_divided_annotated :
    (annotated.units.map (·.name)).Nodup ∧ annotated.root ∈ annotated.units ∧
    ∃ e p warnings, (evaluate annotated).outcome = .ok e ∧ ReportsUnread annotated e ∧
      parse annotated.root.path.toString annotated.root.text = .ok p ∧
      AnnotationsAgree annotated e annotated.root p warnings ∧
      (p.annotations.map fun a => (a.argument, a.inHeader)) =
        [(("a" : ScriptText), true), ("1", true), ("b", false)] ∧
      p.directives.map (·.path) = [("a" : ScriptText)] ∧
      e.diagnostics.map (·.severity) = [.warning, .warning, .warning] := by
  have hnames : (annotated.units.map (·.name)).Nodup := by decide
  have hroot : annotated.root ∈ annotated.units := List.mem_append_right _ List.mem_cons_self
  have hfound : (parse annotated.root.path.toString annotated.root.text).toOption.map (fun p =>
      (p.annotations.map fun a => (a.argument, a.inHeader), p.directives.map (·.path))) =
      some ([(("a" : ScriptText), true), ("1", true), ("b", false)], [("a" : ScriptText)]) := by
    decide +kernel
  have hsaid : (evaluate annotated).outcome.toOption.map (·.diagnostics.map (·.severity)) =
      some [.warning, .warning, .warning] := by decide +kernel
  obtain ⟨p, hp, hpair⟩ := Option.map_eq_some_iff.1 hfound
  obtain ⟨hannotations, hdirectives⟩ := Prod.mk.inj hpair
  have hp := toOption_eq_some_iff.1 hp
  obtain ⟨e, he, hunread, -, hagree⟩ := annotations_divided hnames hroot
  obtain ⟨warnings, hagree⟩ := hagree p hp
  refine ⟨hnames, hroot, e, p, warnings, he, hunread, hp, hagree, hannotations, hdirectives, ?_⟩
  simpa [he, Except.toOption] using hsaid

end Interpreter

end ScriptRunner
