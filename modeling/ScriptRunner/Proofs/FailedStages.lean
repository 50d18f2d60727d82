import ScriptRunner.Proofs.Compilation
import ScriptRunner.Proofs.Resolution.Failures

/-!
# Failures and the stages that they come from

The report of a run is to tell a failure of the engine from a failure before the engine is called.
It does so unless a failure looks like one of the other stage: a script that is read in an encoding
that does not fit looks like a failure of the engine, and a file that the engine itself cannot read
looks like a script that cannot be read.

## Main definitions

* `Run.BlamesEngine` - a report says that the engine failed.
* `EngineFailure.exception?` - what an engine fails with, unless it speaks of the scripts.
* `Host.AttributesFailures` - the report names the stage that failed.

## Main statements

* `Host.compile_eq_error_iff` - a script that is not compiled is not resolved.
* `Host.attributesFailures_iff` - when the report names the stage that failed.
-/

namespace ScriptRunner

/-- How the report of an engine that failed begins, after its severity. -/
def engineFailed : String := "Script engine failed: "

/-- A report says that the engine failed. -/
def Run.BlamesEngine (run : Run) : Prop :=
  ∃ rest, run.report = reportHeader ++ "\n - [FATAL] " ++ engineFailed ++ rest

/-- A text begins otherwise than the report of an engine that failed. -/
def BeginsOtherwise (s : String) : Prop :=
  ∀ t rest, s ++ t ≠ engineFailed ++ rest

theorem beginsOtherwise_append {s : String} (h : ¬ s.toList <+: engineFailed.toList ∧
    ¬ engineFailed.toList <+: s.toList) (t : String) : BeginsOtherwise (s ++ t) := by
  intro u rest heq
  have hlists := congrArg String.toList heq
  simp only [String.toList_append, List.append_assoc] at hlists
  have hs : s.toList <+: engineFailed.toList ++ rest.toList := hlists ▸ List.prefix_append _ _
  rcases List.prefix_or_prefix_of_prefix hs (List.prefix_append _ _) with hprefix | hprefix
  · exact h.1 hprefix
  · exact h.2 hprefix

theorem printed_fatal (message : String) (location : Option Location) :
    printed [⟨.fatal, message, location⟩] =
      reportHeader ++ "\n - [FATAL] " ++ message ++ "\n" := by
  have hline : "\n - [FATAL] " = "\n" ++ (" - [" ++ ("FATAL" ++ "] ")) := by decide
  rw [hline]
  simp only [printed, hasFailure, List.any_cons, Severity.isFailure, Bool.true_or, if_true, report,
    List.map_cons, List.map_nil, Diagnostic.line, Severity.text, toString,
    String.intercalate_cons_cons, String.intercalate_singleton, String.append_assoc]

namespace EngineFailure

/-- The kind and the message of what an engine fails with, unless it speaks of the scripts. -/
def exception? : EngineFailure → Option (String × String)
  | unreadable kind message | other kind message => some (kind, message)
  | unresolved _ _ | diagnosed _ => none

end EngineFailure

/-- A script is not read because its encoding fails in another way than at malformed bytes: there is
no encoding of its name, for instance, or a mark is missing. -/
def ReadError.IsOfEncoding (error : ReadError) : Prop :=
  ∃ kind message, error = .undecodable (.failed kind message)

namespace Host

variable (host : Host) (files : FileSystem) {root : String}

/-- The report of a run names the stage that failed: it does not speak of the engine if there is no
request, and it speaks of nothing else if the engine has failed with a request. -/
structure AttributesFailures (root : String) : Prop where
  compilation : ∀ failure, (host.compile files root).outcome = .error failure →
    ¬ (host.run files root).BlamesEngine
  evaluation : ∀ request failure kind message, (host.compile files root).outcome = .ok request →
    (host.engine.evaluate request).outcome = .error failure →
    failure.exception? = some (kind, message) →
    (host.run files root).report =
      reportHeader ++ "\n - [FATAL] " ++ engineFailed ++ kind ++ ": " ++ message ++ "\n"

variable {host files}

/-- A failure on the way to an evaluation ends the run with its own verdict. -/
theorem run_of_evaluate_error {failure : Failure}
    (h : (host.evaluate files root).outcome = .error failure) :
    host.run files root =
      ⟨(host.evaluate files root).events ++ failure.verdict.events host.engine.name,
        printed failure.verdict.diagnostics, 1⟩ := by
  have hfail : host.evaluateOrFail files root =
      ⟨(host.evaluate files root).events, .error failure⟩ := by
    rw [evaluateOrFail, Traced.bind_of_error h]
  unfold run
  rw [hfail]

theorem report_of_evaluate_error {failure : Failure}
    (h : (host.evaluate files root).outcome = .error failure) :
    (host.run files root).report = printed failure.verdict.diagnostics := by
  rw [run_of_evaluate_error h]

theorem report_of_compile_error {failure : Failure}
    (h : (host.compile files root).outcome = .error failure) :
    (host.run files root).report = printed failure.verdict.diagnostics :=
  report_of_evaluate_error (by rw [evaluate, Traced.bind_of_error h])

theorem report_of_engine_error {request : Request} {failure : EngineFailure}
    (hrequest : (host.compile files root).outcome = .ok request)
    (h : (host.engine.evaluate request).outcome = .error failure) :
    (host.run files root).report = printed failure.verdict.diagnostics := by
  have hengine : (((host.engine.evaluate request).mapEvents Event.engine).mapError
      Failure.engine).outcome = .error (.engine failure) := mapError_eq_error.2 ⟨failure, h, rfl⟩
  have hevaluate : (host.evaluate files root).outcome = .error (.engine failure) := by
    rw [evaluate, Traced.bind_of_ok hrequest]
    simp only [Traced.outcome_emit_bind]
    exact hengine
  exact report_of_evaluate_error hevaluate

/-- There is always a request for a graph that a resolution comes to. -/
theorem exists_request_of_resolve {g : ImportGraph}
    (h : (host.resolve files root).outcome = .ok g) :
    ∃ request, Request.ofGraph g = .ok request := by
  obtain ⟨-, hgraph⟩ :=
    (host.resolver files).consistent_isGraphOf_of_resolve ((host.resolve_eq_ok files).1 h)
  rcases Request.ofGraph_cases hgraph.frozen with ⟨_, request, hrequest, _⟩ | ⟨p, hreach, hnone, -⟩
  · exact ⟨request, hrequest⟩
  · obtain ⟨n, hn⟩ := Table.exists_find?_of_mem_keys ((hgraph.reaches_iff p).1 hreach)
    exact absurd (hn.symm.trans hnone) (by simp)

/-- A script that is not compiled is one that is not resolved. -/
theorem compile_eq_error_iff {failure : Failure} :
    (host.compile files root).outcome = .error failure ↔
      ∃ reason, ((host.resolver files).resolve root).outcome = .error reason ∧
        failure = .resolution reason := by
  cases hresolve : ((host.resolver files).resolve root).outcome with
  | error reason =>
    have hfailed : (host.resolve files root).outcome = .error (.resolution reason) :=
      mapError_eq_error.2 ⟨reason, hresolve, rfl⟩
    rw [compile, Traced.bind_of_error hfailed]
    simp [eq_comm]
  | ok g =>
    have hg := (host.resolve_eq_ok files).2 hresolve
    obtain ⟨request, hrequest⟩ := exists_request_of_resolve hg
    simp [(host.compile_eq_ok files).2 ⟨g, hg, hrequest⟩]

end Host

theorem Resolver.exists_violation_of_error {r : Resolver} (hfiles : r.files.Bounded)
    {written : String} {failure : ResolutionFailure}
    (h : (r.resolve written).outcome = .error failure) : ∃ c, r.violation? c = some failure := by
  obtain ⟨checks, entered, hinspects, -⟩ :=
    Resolver.existsUnique_inspectsRoot hfiles written (r.rootPath written)
  have hdecided := Resolver.resolve_decidedBy hfiles hinspects
  unfold Resolver.DecidedBy at hdecided
  split at hdecided
  next first hfirst =>
    obtain rfl := Except.error.inj (h.symm.trans hdecided)
    obtain ⟨c, -, hc⟩ := List.exists_of_findSome?_eq_some hfirst
    exact ⟨c, hc⟩
  next =>
    obtain ⟨g, hg, -⟩ := hdecided
    simp [hg] at h

theorem Resolver.violation?_ne_tooDeep (r : Resolver) (c : Check) :
    r.violation? c ≠ some .tooDeep := by
  cases c <;> unfold violation? <;> repeat' split
  all_goals simp

/-- How a failed resolution is reported: as a script that is not read, or in words that begin
otherwise than those about the engine. -/
theorem Resolver.verdict_of_error {r : Resolver} (hfiles : r.files.Bounded) {written : String}
    {failure : ResolutionFailure} (h : (r.resolve written).outcome = .error failure) :
    (∃ error, failure = .unreadable error) ∨
      ∃ message location, failure.verdict = .unresolved message location ∧
        BeginsOtherwise message := by
  obtain ⟨c, hc⟩ := Resolver.exists_violation_of_error hfiles h
  cases failure with
  | unreadable error => exact .inl ⟨error, rfl⟩
  | tooDeep => exact absurd hc (r.violation?_ne_tooDeep c)
  | misplaced path marker =>
    refine .inr ⟨_, _, rfl, ?_⟩
    unfold ResolutionFailure.message
    simp only [String.append_assoc]
    exact beginsOtherwise_append (by decide +kernel) _
  | notFound importPath target declaredIn location =>
    refine .inr ⟨_, _, rfl, ?_⟩
    unfold ResolutionFailure.message
    cases declaredIn <;> simp only [String.append_assoc] <;>
      exact beginsOtherwise_append (by decide +kernel) _
  | graph fault =>
    obtain ⟨p, earlier, name, existing, -, -, rfl, -, -⟩ := Resolver.violation?_eq_graph hc
    refine .inr ⟨_, _, rfl, ?_⟩
    unfold GraphFault.message
    simp only [String.append_assoc]
    exact beginsOtherwise_append (by decide +kernel) _

theorem Run.blamesEngine_iff {run : Run} {message : String} {location : Option Location}
    (h : run.report = printed [⟨.fatal, message, location⟩]) :
    run.BlamesEngine ↔ ∃ rest, message ++ "\n" = engineFailed ++ rest := by
  simp only [BlamesEngine, h, printed_fatal, String.append_assoc]
  simp

theorem BeginsOtherwise.not_blamesEngine {run : Run} {message : String}
    {location : Option Location} (hmessage : BeginsOtherwise message)
    (h : run.report = printed [⟨.fatal, message, location⟩]) : ¬ run.BlamesEngine := by
  rw [Run.blamesEngine_iff h]
  exact fun ⟨rest, heq⟩ => hmessage _ rest heq

namespace Run

variable {run : Run} {kind message : String}

theorem not_blamesEngine_of_unreadable
    (h : run.report = printed (Verdict.unreadable message).diagnostics) : ¬ run.BlamesEngine :=
  (beginsOtherwise_append (by decide +kernel) _).not_blamesEngine h

theorem blamesEngine_of_engineFailed
    (h : run.report = printed (Verdict.engineFailed kind message).diagnostics) :
    run.BlamesEngine := by
  rw [blamesEngine_iff h]
  refine ⟨kind ++ ": " ++ message ++ "\n", ?_⟩
  simp only [engineFailed, toString, String.append_assoc]

end Run

namespace Host

variable {host : Host} {files : FileSystem} {root : String}

/-- A script that is not read is reported in words about the engine exactly if its encoding is the
reason. -/
theorem blamesEngine_of_unreadable_iff {error : ReadError}
    (h : (host.compile files root).outcome = .error (.resolution (.unreadable error))) :
    (host.run files root).BlamesEngine ↔ error.IsOfEncoding := by
  have hreport := report_of_compile_error h
  cases error with
  | file fault path => simp [ReadError.IsOfEncoding, Run.not_blamesEngine_of_unreadable hreport]
  | undecodable error =>
    cases error with
    | malformed fault => simp [ReadError.IsOfEncoding, Run.not_blamesEngine_of_unreadable hreport]
    | failed kind message =>
      simp [ReadError.IsOfEncoding, Run.blamesEngine_of_engineFailed hreport]

/-- The report names the stage that failed exactly if no script is left unread for its encoding, and
the engine does not fail to read a file of its own. -/
theorem attributesFailures_iff (host : Host) {files : FileSystem} (hfiles : files.Bounded)
    (root : String) : host.AttributesFailures files root ↔
      (∀ error, (host.compile files root).outcome = .error (.resolution (.unreadable error)) →
        ¬ error.IsOfEncoding) ∧
      ∀ request kind message, (host.compile files root).outcome = .ok request →
        (host.engine.evaluate request).outcome ≠ .error (.unreadable kind message) := by
  constructor
  · intro h
    refine ⟨fun error herror hencoding => ?_, fun request kind message hrequest hengine => ?_⟩
    · exact h.compilation _ herror ((blamesEngine_of_unreadable_iff herror).2 hencoding)
    · have hreport := h.evaluation request _ kind message hrequest hengine rfl
      refine Run.not_blamesEngine_of_unreadable (report_of_engine_error hrequest hengine) ?_
      exact ⟨kind ++ ": " ++ message ++ "\n", by rw [hreport]; simp only [String.append_assoc]⟩
  · rintro ⟨hreading, hengine⟩
    refine ⟨fun failure hfailure => ?_,
      fun request failure kind message hrequest hfailure hkind => ?_⟩
    · obtain ⟨reason, hreason, rfl⟩ := compile_eq_error_iff.1 hfailure
      rcases Resolver.verdict_of_error hfiles hreason with
        ⟨error, rfl⟩ | ⟨message, location, hverdict, hmessage⟩
      · rw [blamesEngine_of_unreadable_iff hfailure]
        exact hreading error hfailure
      · have hreport := report_of_compile_error hfailure
        rw [Failure.verdict, hverdict] at hreport
        exact hmessage.not_blamesEngine hreport
    · cases failure with
      | unresolved _ _ => simp [EngineFailure.exception?] at hkind
      | diagnosed _ => simp [EngineFailure.exception?] at hkind
      | unreadable _ _ => exact absurd hfailure (hengine request _ _ hrequest)
      | other kind' message' =>
        obtain ⟨rfl, rfl⟩ := Prod.mk.inj (Option.some.inj hkind)
        refine (report_of_engine_error hrequest hfailure).trans ((printed_fatal _ _).trans ?_)
        simp only [engineFailed, toString, String.append_assoc]

/-- A host that reads scripts in some encoding and whose engine always fails in the same way. -/
def failing (encoding : String) (failure : EngineFailure) : Host where
  settings := { encoding }
  extractor := .ofList .top []
  engine := ⟨"Failing", fun _ => .fail failure⟩

/-- A single script. -/
def singleFile : FileSystem :=
  ((Snapshot.start .top).learn (.ofString "/scripts/a") (.ok [])).fileSystem

theorem attributesFailures_failing : singleFile.Bounded ∧
    (failing "utf-8" (.other "RuntimeError" "boom")).AttributesFailures singleFile "scripts/a" ∧
    ((failing "utf-8" (.other "RuntimeError" "boom")).run singleFile "scripts/a").report =
      "Script evaluation failed:\n - [FATAL] Script engine failed: RuntimeError: boom\n" := by
  have hfiles : singleFile.Bounded := Snapshot.bounded_fileSystem _
  have hsome : ((failing "utf-8" (.other "RuntimeError" "boom")).compile singleFile
      "scripts/a").outcome.toOption.isSome = true := by decide +kernel
  cases hrequest : ((failing "utf-8" (.other "RuntimeError" "boom")).compile singleFile
      "scripts/a").outcome with
  | error failure => simp [hrequest, Except.toOption] at hsome
  | ok request =>
    have h := (attributesFailures_iff (failing "utf-8" (.other "RuntimeError" "boom")) hfiles
      "scripts/a").2 ⟨fun error herror => by simp [hrequest] at herror,
        fun _ _ _ _ hfailure => EngineFailure.noConfusion (Except.error.inj hfailure)⟩
    exact ⟨hfiles, h, (h.evaluation request _ _ _ hrequest rfl rfl).trans (by decide +kernel)⟩

/-- An engine that cannot read a file of its own, and a script in an encoding that is not
known. -/
theorem not_attributesFailures_failing :
    ¬ (failing "utf-8" (.unreadable "OSError" "boom")).AttributesFailures singleFile "scripts/a" ∧
    ¬ (failing "no-such-codec" (.other "RuntimeError" "boom")).AttributesFailures singleFile
      "scripts/a" := by
  constructor <;> intro h
  · have hsome : ((failing "utf-8" (.unreadable "OSError" "boom")).compile singleFile
        "scripts/a").outcome.toOption.isSome = true := by decide +kernel
    cases hrequest : ((failing "utf-8" (.unreadable "OSError" "boom")).compile singleFile
        "scripts/a").outcome with
    | error failure => simp [hrequest, Except.toOption] at hsome
    | ok request =>
      have hreport := h.evaluation request _ _ _ hrequest rfl rfl
      revert hreport
      decide +kernel
  · have hnone : ((failing "no-such-codec" (.other "RuntimeError" "boom")).compile singleFile
        "scripts/a").outcome.toOption.isSome = false := by decide +kernel
    cases hfailure : ((failing "no-such-codec" (.other "RuntimeError" "boom")).compile singleFile
        "scripts/a").outcome with
    | ok request => simp [hfailure, Except.toOption] at hnone
    | error failure =>
      refine h.compilation failure hfailure
        ⟨"LookupError: unknown encoding: no-such-codec\n", ?_⟩
      decide +kernel

end Host

end ScriptRunner
