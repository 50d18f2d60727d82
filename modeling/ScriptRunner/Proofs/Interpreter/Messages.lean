import Mathlib.Data.List.Infix
import ScriptRunner.Proofs.Interpreter.Requests
import ScriptRunner.Proofs.Script.Names

/-!
# Reports of units that are not initialized

Only one report of an evaluation says that a unit is not initialized: that of a name with such a
unit in front. All other messages end otherwise. The names in messages come from scripts, so they
hold no blank.

## Main definitions

* `Diagnostic.SaysUninitialized` - the form of the report.
* `EndsOtherwise` - a text does not end like that report.

## Main statements

* `saysUninitialized_report_iff` - which fault of a script is reported in this form.
* `not_saysUninitialized_of_performAll` - what is reported before a fault has another form.
-/

namespace ScriptRunner

/-- A report says of a unit that another one is not initialized. -/
def Diagnostic.SaysUninitialized (d : Diagnostic) : Prop :=
  ∃ unit owner : String, d.message = s!"{unit}: {(ReferenceFault.notInitialized owner).message}"

/-- How the report of a unit that is not initialized ends. -/
def lateEnd : List Char := "d yet".toList

/-- A text ends otherwise than such a report. -/
def EndsOtherwise (s : String) : Prop :=
  ∃ t, t <:+ s.toList ∧ ¬ t <:+ lateEnd ∧ ¬ lateEnd <:+ t

theorem endsOtherwise_of {t : List Char} (h : ¬ t <:+ lateEnd ∧ ¬ lateEnd <:+ t) :
    EndsOtherwise (String.ofList t) := by
  refine ⟨t, ?_, h⟩
  rw [String.toList_ofList]

theorem EndsOtherwise.append {s : String} (h : EndsOtherwise s) (a : String) :
    EndsOtherwise (a ++ s) := by
  obtain ⟨t, ht, hapart⟩ := h
  refine ⟨t, ?_, hapart⟩
  rw [String.toList_append]
  exact ht.trans (List.suffix_append _ _)

theorem endsOtherwise_append {t : List Char} (h : ¬ t <:+ lateEnd ∧ ¬ lateEnd <:+ t)
    (a : String) : EndsOtherwise (a ++ String.ofList t) :=
  (endsOtherwise_of h).append a

theorem EndsOtherwise.not_lateEnd {s : String} (h : EndsOtherwise s) : ¬ lateEnd <:+ s.toList := by
  obtain ⟨t, ht, hleft, hright⟩ := h
  intro hlate
  rcases List.suffix_or_suffix_of_suffix ht hlate with h | h
  · exact hleft h
  · exact hright h

theorem Diagnostic.SaysUninitialized.lateEnd {d : Diagnostic} (h : d.SaysUninitialized) :
    lateEnd <:+ d.message.toList := by
  obtain ⟨unit, owner, hmessage⟩ := h
  have hend : ScriptRunner.lateEnd <:+ "' is not initialized yet".toList := by decide
  have hfault : ScriptRunner.lateEnd <:+ (ReferenceFault.notInitialized owner).message.toList := by
    change _ <:+ ("Script '" ++ owner ++ "' is not initialized yet").toList
    rw [String.toList_append]
    exact hend.trans (List.suffix_append _ _)
  rw [hmessage]
  change _ <:+ (unit ++ ": " ++ (ReferenceFault.notInitialized owner).message).toList
  rw [String.toList_append]
  exact hfault.trans (List.suffix_append _ _)

theorem EndsOtherwise.not_saysUninitialized {d : Diagnostic} (h : EndsOtherwise d.message) :
    ¬ d.SaysUninitialized :=
  fun hlate => h.not_lateEnd hlate.lateEnd

/-- A name behind a colon and a blank, or behind a point, ends otherwise. -/
theorem endsOtherwise_name {name separator : String} (hname : ' ' ∉ name.toList)
    (h : separator = ": " ∨ separator = ".") : EndsOtherwise (separator ++ name) := by
  refine ⟨(separator ++ name).toList, List.suffix_rfl, fun hshort => ?_, fun hlate => ?_⟩
  · have hsub : separator.toList ⊆ lateEnd := fun c hc =>
      hshort.subset (by rw [String.toList_append]; exact List.mem_append_left _ hc)
    rcases h with rfl | rfl <;> exact absurd hsub (by decide)
  · rw [String.toList_append] at hlate
    rcases List.suffix_or_suffix_of_suffix (List.suffix_append _ _) hlate with hin | hin
    · -- The name is a part of the last word, but neither separator stands before it.
      have htails : name.toList ∈ ["d yet".toList, " yet".toList, "yet".toList, "et".toList,
          "t".toList, []] := (List.mem_tails _ _).2 hin
      simp only [List.mem_cons, List.not_mem_nil, or_false] at htails
      rcases htails with hn | hn | hn | hn | hn | hn
      · exact hname (hn ▸ by decide)
      · exact hname (hn ▸ by decide)
      all_goals
        rw [hn] at hlate
        rcases h with rfl | rfl <;> exact absurd hlate (by decide)
    · exact hname (hin.subset (by decide))

theorem endsOtherwise_operatorFault (fault : OperatorFault) : EndsOtherwise fault.message := by
  cases fault with
  | undefined symbol left right =>
    cases right <;> exact endsOtherwise_append (by decide) _
  | unknown symbol => exact endsOtherwise_append (by decide) _
  | divisionByZero => exact endsOtherwise_of (by decide)
  | tooLarge symbol => exact endsOtherwise_append (by decide) _
  | outsideDomain symbol => exact endsOtherwise_append (by decide) _
  | tooLong =>
    exact (endsOtherwise_append (by decide) _).append _
  | notNegatable operand =>
    cases operand <;> exact endsOtherwise_append (by decide) _

/-- The names in the expression of a statement are among those of the statement. -/
theorem Script.Statement.Names.body {L : Type} {P : String → Prop} {st : Script.Statement L}
    (h : st.Names P) : st.body.Names P := by
  cases st with
  | val name e span => exact h.2
  | print e span | expression e span => exact h

namespace Interpreter

open Script

/-- All names in a fault have a property. -/
def Fault.Names (P : String → Prop) : Fault → Prop
  | operator _ => True
  | reference (.unresolved name) => P name
  | reference (.unresolvedMember owner name) => P owner ∧ P name
  | reference (.notInitialized owner) | reference (.unknownOwner owner) => P owner

/-- The names in the fault of an expression come from the expression. -/
theorem FailsAt.names {P : String → Prop} {env : Environment} {unit : String} {e : Expr Value}
    {stop : Stop} (h : FailsAt env unit e stop) (he : e.Names P) {fault : Fault} {span : Span}
    (hstop : stop = .fault fault span) : fault.Names P := by
  induction h with
  | name h =>
    rcases Environment.lookup_eq_error_iff.1 h with ⟨-, rfl⟩ | ⟨_, -, -, -, rfl⟩
    · simp [Stop.ofLookup] at hstop
    · obtain ⟨rfl, -⟩ := Stop.fault.inj hstop
      exact he
  | member h =>
    obtain ⟨rfl, -⟩ := Stop.fault.inj hstop
    rcases Environment.member_eq_error_iff.1 h with
      ⟨-, -, rfl⟩ | ⟨-, -, rfl⟩ | ⟨_, -, -, rfl⟩
    · exact he.1
    · exact he.1
    · exact he
  | operand _ ih => exact ih he hstop
  | left _ ih => exact ih he.1 hstop
  | right _ _ ih => exact ih he.2 hstop
  | negate | apply =>
    obtain ⟨rfl, -⟩ := Stop.fault.inj hstop
    trivial

theorem endsOtherwise_unresolved {name : String} (h : WrittenAsName name) :
    EndsOtherwise ("Unresolved reference: " ++ name) := by
  have hsplit : "Unresolved reference: " ++ name = "Unresolved reference" ++ (": " ++ name) := by
    rw [← String.append_assoc]
    rfl
  rw [hsplit]
  exact (endsOtherwise_name (h.not_mem (by decide)) (.inl rfl)).append _

/-- A fault is reported in this form exactly if a unit is not initialized. -/
theorem saysUninitialized_report_iff {u : ParsedUnit} {fault : Fault} {span : Span}
    (hnames : fault.Names WrittenAsName) :
    (Interruption.report u fault span).SaysUninitialized ↔
      ∃ owner, fault = .reference (.notInitialized owner) := by
  constructor
  · intro hform
    by_contra hother
    have hends : EndsOtherwise fault.message := by
      cases fault with
      | operator fault => exact endsOtherwise_operatorFault fault
      | reference fault =>
        cases fault with
        | unresolved name => exact endsOtherwise_unresolved hnames
        | unknownOwner owner => exact endsOtherwise_unresolved hnames
        | notInitialized owner => exact absurd ⟨owner, rfl⟩ hother
        | unresolvedMember owner name =>
          change EndsOtherwise ("Unresolved reference: " ++ owner ++ "." ++ name)
          rw [String.append_assoc]
          exact (endsOtherwise_name (hnames.2.not_mem (by decide)) (.inr rfl)).append _
    exact (hends.append _).not_saysUninitialized hform
  · rintro ⟨owner, rfl⟩
    exact ⟨u.1.name, owner, rfl⟩

theorem endsOtherwise_literalFault (fault : LiteralFault) : EndsOtherwise fault.message := by
  cases fault with
  | tooManyDigits count =>
    exact (endsOtherwise_append (by decide) _).append _
  | nul => exact endsOtherwise_of (by decide)
  | unterminated line => exact endsOtherwise_append (by decide) _
  | escape fault line =>
    exact (endsOtherwise_append (by decide) _).append _

theorem endsOtherwise_parseError (e : ParseError) : EndsOtherwise e.message := by
  obtain ⟨file, fault⟩ := e
  cases fault with
  | malformed fault position =>
    refine EndsOtherwise.append ?_ _
    cases fault with
    | unexpectedToken text => exact endsOtherwise_append (by decide) _
    | unexpectedLineEnd => exact endsOtherwise_of (by decide)
    | unexpectedEnd => exact endsOtherwise_of (by decide)
    | unexpectedCharacter c => exact endsOtherwise_append (by decide) _
  | content fault =>
    refine EndsOtherwise.append ?_ _
    cases fault with
    | literal fault => exact endsOtherwise_literalFault fault
    | unnamedFile => exact endsOtherwise_of (by decide)

theorem not_saysUninitialized_parseReport {u : ReadUnit} {d : Diagnostic}
    (h : parseReport? u = some d) : ¬ d.SaysUninitialized := by
  obtain ⟨unit, _ | program⟩ := u
  · obtain rfl := Option.some.inj h
    exact (endsOtherwise_parseError _).not_saysUninitialized
  · simp [parseReport?] at h

theorem not_saysUninitialized_annotationWarning {p : Program} {a : Annotation} {d : Diagnostic}
    (h : annotationWarning? p a = some d) : ¬ d.SaysUninitialized := by
  have hends : EndsOtherwise " is ignored" := endsOtherwise_of (by decide)
  unfold annotationWarning? at h
  split at h
  · obtain rfl := Option.some.inj h
    exact (hends.append _).not_saysUninitialized
  · split at h
    · obtain rfl := Option.some.inj h
      refine EndsOtherwise.not_saysUninitialized (EndsOtherwise.append ?_ _)
      exact endsOtherwise_of (by decide)
    · simp at h

theorem not_saysUninitialized_rebindingWarning (unit name : String) (location : Location) :
    ¬ (rebindingWarning unit name location).SaysUninitialized :=
  EndsOtherwise.not_saysUninitialized (endsOtherwise_append (by decide) _)

/-- No report from before a fault says that a unit is not initialized. -/
theorem not_saysUninitialized_of_performAll {r : Request} {scripts : List ParsedUnit}
    {value : Option Value} {tasks : List Task} {q : Progress}
    (h : performAll (startState r scripts, value) tasks = .ok q) :
    ∀ d ∈ q.1.diagnostics, ¬ d.SaysUninitialized := by
  obtain ⟨warnings, heq, hall⟩ := (extends_performAll h).diagnostics
  intro d hd
  rw [heq, List.mem_append] at hd
  rcases hd with hd | hd
  · obtain ⟨u, -, hd⟩ := List.mem_flatMap.1 hd
    obtain ⟨a, -, ha⟩ := List.mem_filterMap.1 hd
    exact not_saysUninitialized_annotationWarning ha
  · obtain ⟨unit, name, location, rfl⟩ := hall d hd
    exact not_saysUninitialized_rebindingWarning unit name location

end Interpreter

end ScriptRunner
