import ScriptRunner.Engine

/-!
# Streams that scripts print to

A stream need not take every line. An evaluation is carried by a stream if all its lines are taken:
nothing about it changes then. The first line that is not taken ends the evaluation, behind what
happened before it, with the failure that the stream raises.

## Main definitions

* `OutputStream.Takes` - a stream takes a line.
* `OutputStream.Refuses` - a stream does not take all of some lines.

## Main statements

* `OutputStream.utf8_takes_iff` - what can be encoded in UTF-8.
* `OutputStream.carry_cases` - what becomes of an evaluation on a stream.
* `OutputStream.outcome_carry_eq_ok_iff`, `OutputStream.outcome_carry_eq_error_iff` - its results
  and its failures.
-/

namespace ScriptRunner

namespace OutputStream

/-- A stream takes a line. -/
def Takes (stream : OutputStream) (line : ScriptText) : Prop :=
  stream.refusal? line = none

/-- A stream does not take all of some lines: at the first one that it does not take, it raises a
failure. -/
inductive Refuses (stream : OutputStream) : List ScriptText → EngineFailure → Prop
  | here {line : ScriptText} {rest : List ScriptText} {failure : EngineFailure}
    (hline : stream.refusal? line = some failure) : Refuses stream (line :: rest) failure
  | later {line : ScriptText} {rest : List ScriptText} {failure : EngineFailure}
    (hline : stream.Takes line) (hrest : Refuses stream rest failure) :
    Refuses stream (line :: rest) failure

/-- Exactly the lines without halves of surrogate pairs can be encoded. -/
theorem utf8_takes_iff (line : ScriptText) :
    utf8.Takes line ↔ ∀ p ∈ line, p.isSurrogate = false := by
  rw [← Text.encodeFault?_eq_none_iff]
  exact Option.map_eq_none_iff

variable {stream : OutputStream} {lines : List ScriptText} {failure failure' : EngineFailure}

namespace Refuses

theorem not_takes (h : stream.Refuses lines failure) : ¬ ∀ line ∈ lines, stream.Takes line := by
  induction h with
  | here hline =>
    intro htakes
    have htaken : stream.refusal? _ = none := htakes _ List.mem_cons_self
    simp [hline] at htaken
  | later _ _ ih => exact fun htakes => ih fun l hl => htakes l (List.mem_cons_of_mem _ hl)

theorem unique (h : stream.Refuses lines failure) (h' : stream.Refuses lines failure') :
    failure = failure' := by
  induction h with
  | here hline =>
    cases h' with
    | here hline' => exact Option.some.inj (hline.symm.trans hline')
    | later htaken _ => simp [show stream.refusal? _ = none from htaken] at hline
  | later htaken _ ih =>
    cases h' with
    | here hline' => simp [show stream.refusal? _ = none from htaken] at hline'
    | later _ hrest => exact ih hrest

end Refuses

/-- Where an evaluation on a stream ends: at the end, or in front of a line that is not taken. -/
theorem firstRefusal?_cases (stream : OutputStream) (events : List EngineEvent) :
    (stream.firstRefusal? events = none ∧ ∀ line ∈ printedLines events, stream.Takes line) ∨
    ∃ before line rest failure, stream.firstRefusal? events = some (before, failure) ∧
      events = before ++ .printed line :: rest ∧ stream.refusal? line = some failure ∧
      stream.Refuses (printedLines events) failure := by
  induction events with
  | nil => exact .inl ⟨rfl, by simp [printedLines]⟩
  | cons event events ih =>
    cases event with
    | printed line =>
      cases hline : stream.refusal? line with
      | some failure =>
        exact .inr ⟨[], line, events, failure,
          by simp [firstRefusal?, EngineEvent.printedLine?, hline],
          rfl, hline, .here hline⟩
      | none =>
        rcases ih with ⟨hnone, htaken⟩ | ⟨before, l, rest, failure, hsome, rfl, hl, hrefuses⟩
        · refine .inl ⟨by simp [firstRefusal?, EngineEvent.printedLine?, hline, hnone], ?_⟩
          exact List.forall_mem_cons.2 ⟨hline, htaken⟩
        · exact .inr ⟨.printed line :: before, l, rest, failure,
            by simp [firstRefusal?, EngineEvent.printedLine?, hline, hsome], rfl, hl,
            .later hline hrefuses⟩
    | started _ _ | finished _ _ =>
      rcases ih with ⟨hnone, htaken⟩ | ⟨before, l, rest, failure, hsome, rfl, hl, hrefuses⟩
      · exact .inl ⟨by simp [firstRefusal?, EngineEvent.printedLine?, hnone], htaken⟩
      · exact .inr ⟨_ :: before, l, rest, failure,
          by simp [firstRefusal?, EngineEvent.printedLine?, hsome], rfl, hl, hrefuses⟩

variable {x : Evaluating}

/-- An evaluation whose lines are all taken is carried as it is. Otherwise it ends where the first
line that is not taken would be printed. -/
theorem carry_cases (stream : OutputStream) (x : Evaluating) :
    ((∀ line ∈ printedLines x.events, stream.Takes line) ∧ stream.carry x = x) ∨
    ∃ before line rest failure, x.events = before ++ .printed line :: rest ∧
      stream.refusal? line = some failure ∧ stream.Refuses (printedLines x.events) failure ∧
      stream.carry x = ⟨before, .error failure⟩ := by
  unfold carry
  rcases stream.firstRefusal?_cases x.events with
    ⟨hnone, htaken⟩ | ⟨before, line, rest, failure, hsome, hevents, hline, hrefuses⟩
  · rw [hnone]
    exact .inl ⟨htaken, rfl⟩
  · rw [hsome]
    exact .inr ⟨before, line, rest, failure, hevents, hline, hrefuses, rfl⟩

/-- An evaluation on a stream has the result that it has by itself, if all its lines are taken. -/
theorem outcome_carry_eq_ok_iff {e : Evaluation} : (stream.carry x).outcome = .ok e ↔
    x.outcome = .ok e ∧ ∀ line ∈ printedLines x.events, stream.Takes line := by
  rcases stream.carry_cases x with ⟨htaken, hcarry⟩ | ⟨_, _, _, _, -, -, hrefuses, hcarry⟩
  · rw [hcarry, and_iff_left htaken]
  · rw [hcarry]
    exact iff_of_false (by simp) fun h => hrefuses.not_takes h.2

/-- An evaluation on a stream fails as the stream does at the first line that it does not take, or
as the evaluation does by itself if all lines are taken. -/
theorem outcome_carry_eq_error_iff : (stream.carry x).outcome = .error failure ↔
    stream.Refuses (printedLines x.events) failure ∨
      (∀ line ∈ printedLines x.events, stream.Takes line) ∧ x.outcome = .error failure := by
  rcases stream.carry_cases x with ⟨htaken, hcarry⟩ | ⟨_, _, _, _, -, -, hrefuses, hcarry⟩
  · rw [hcarry, or_iff_right fun h => h.not_takes htaken, and_iff_right htaken]
  · rw [hcarry, or_iff_left fun h => hrefuses.not_takes h.1, Except.error.injEq]
    exact ⟨fun h => h ▸ hrefuses, hrefuses.unique⟩

end OutputStream

end ScriptRunner
