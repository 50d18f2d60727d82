/-!
# Computations with a trace

A computation that leaves a trace of events on its way to a failure or a result.

## Main definitions

* `Traced` - the events of a computation and its outcome.
* `Traced.emit`, `Traced.fail`, `Traced.ofExcept` - the smallest computations.
* `Traced.mapError`, `Traced.mapEvents` - a computation seen from outside.
-/

namespace ScriptRunner

/-- A computation: what happens in it, and the failure or the result that it ends in. -/
structure Traced (E ε α : Type) where
  events : List E
  outcome : Except ε α

namespace Traced

variable {E ε α β : Type}

/-- The computation that has a result at once. -/
protected def pure (a : α) : Traced E ε α := ⟨[], .ok a⟩

/-- A computation, and then one that depends on its result. A failure ends both. -/
protected def bind (x : Traced E ε α) (f : α → Traced E ε β) : Traced E ε β :=
  match x.outcome with
  | .error e => ⟨x.events, .error e⟩
  | .ok a => ⟨x.events ++ (f a).events, (f a).outcome⟩

instance : Monad (Traced E ε) where
  pure := Traced.pure
  bind := Traced.bind

def emit (event : E) : Traced E ε PUnit := ⟨[event], .ok ⟨⟩⟩

def fail (e : ε) : Traced E ε α := ⟨[], .error e⟩

/-- The computation that has the given outcome at once. -/
def ofExcept (outcome : Except ε α) : Traced E ε α := ⟨[], outcome⟩

/-- The same computation with its failures seen from outside. -/
def mapError {δ : Type} (f : ε → δ) (x : Traced E ε α) : Traced E δ α :=
  ⟨x.events, x.outcome.mapError f⟩

/-- The same computation with its events seen from outside. -/
def mapEvents {F : Type} (f : E → F) (x : Traced E ε α) : Traced F ε α :=
  ⟨x.events.map f, x.outcome⟩

@[simp] theorem events_pure (a : α) : (pure a : Traced E ε α).events = [] := rfl

@[simp] theorem outcome_pure (a : α) : (pure a : Traced E ε α).outcome = .ok a := rfl

theorem bind_of_error {x : Traced E ε α} {e : ε} (h : x.outcome = .error e)
    (f : α → Traced E ε β) : x >>= f = ⟨x.events, .error e⟩ := by
  change Traced.bind x f = _
  simp only [Traced.bind, h]

/-- After a result the events of both parts follow each other. -/
theorem bind_of_ok {x : Traced E ε α} {a : α} (h : x.outcome = .ok a) (f : α → Traced E ε β) :
    x >>= f = ⟨x.events ++ (f a).events, (f a).outcome⟩ := by
  change Traced.bind x f = _
  simp only [Traced.bind, h]

@[simp] theorem outcome_emit (event : E) : (emit event : Traced E ε PUnit).outcome = .ok ⟨⟩ := rfl

@[simp] theorem outcome_fail (e : ε) : (fail e : Traced E ε α).outcome = .error e := rfl

@[simp] theorem outcome_ofExcept (outcome : Except ε α) :
    (ofExcept outcome : Traced E ε α).outcome = outcome := rfl

/-- A computation in two parts has a result if both parts have one. -/
theorem outcome_bind_eq_ok {x : Traced E ε α} {f : α → Traced E ε β} {b : β} :
    (x >>= f).outcome = .ok b ↔ ∃ a, x.outcome = .ok a ∧ (f a).outcome = .ok b := by
  cases h : x.outcome with
  | error e => simp [bind_of_error h]
  | ok a => simp [bind_of_ok h]

/-- An event changes nothing of what comes out. -/
@[simp] theorem outcome_emit_bind (event : E) (f : PUnit → Traced E ε β) :
    (emit event >>= f).outcome = (f ⟨⟩).outcome := by
  rw [bind_of_ok (outcome_emit event)]

theorem bind_pure_self (x : Traced E ε α) : Traced.bind x Traced.pure = x := by
  obtain ⟨events, _ | a⟩ := x <;> simp [Traced.bind, Traced.pure]

theorem bind_bind {γ : Type} (x : Traced E ε α) (f : α → Traced E ε β) (g : β → Traced E ε γ) :
    Traced.bind (Traced.bind x f) g = Traced.bind x fun a => Traced.bind (f a) g := by
  obtain ⟨events, _ | a⟩ := x
  · rfl
  · cases h : (f a).outcome <;> simp [Traced.bind, h]

instance : LawfulMonad (Traced E ε) :=
  LawfulMonad.mk' (Traced E ε) bind_pure_self (fun _ _ => rfl) bind_bind

end Traced

end ScriptRunner
