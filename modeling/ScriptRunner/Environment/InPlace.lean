import ScriptRunner.Environment

/-!
# Environments that are changed in place

The calls of an environment as they are carried out on one that is kept: look the namespace of a
unit up, search it, write it back. A call that fails leaves whatever has been written before it
fails. Calls fail before they write, so calls in place come to the same as changed environments.

## Main definitions

* `Environment.InPlace` - programs that change an environment and may fail.
* `InPlace.enter`, `InPlace.set`, `InPlace.lookup`, `InPlace.member` - the calls.

## Main statements

* `InPlace.run_enter`, `InPlace.run_set` - a call that changes the environment.
* `InPlace.run_lookup`, `InPlace.run_member` - a call that reads the environment.
-/

namespace ScriptRunner

namespace Environment

/-- Programs that change an environment. A fault ends a program and keeps what has been written so
far. -/
abbrev InPlace := EStateM LookupFault Environment

namespace InPlace

/-- The namespace of a unit that has been entered. -/
def namespaceOf (unit : String) : InPlace Namespace := do
  match (← get).namespaces.find? unit with
  | some own => return own
  | none => throw (.unit (.notEntered unit))

def writeNamespace (unit : String) (own : Namespace) : InPlace Unit :=
  modify fun env => { env with namespaces := env.namespaces.insert unit own }

/-- Create the namespace of a unit. -/
def enter (unit : String) : InPlace Unit := do
  if (← get).namespaces.contains unit then
    throw (.unit (.enteredTwice unit))
  writeNamespace unit .empty

/-- Bind a name in a unit. The answer says that the unit had a binding of that name before. -/
def set (unit name : String) (value : Value) : InPlace Bool := do
  let own ← namespaceOf unit
  writeNamespace unit (own.insert name value)
  return own.contains name

/-- Search the namespaces of some units one after the other. -/
def search (name : String) : (units : List String) → InPlace (Option Value)
  | [] => return none
  | unit :: units => do
    if let some imported := (← get).namespaces.find? unit then
      if let some value := imported.find? name then
        return some value
    search name units

/-- Read a bare name in a unit. -/
def lookup (unit name : String) : InPlace Value := do
  let own ← namespaceOf unit
  if let some value := own.find? name then
    return value
  match ← search name ((← get).importsOf unit) with
  | some value => return value
  | none => throw (.reference (.unresolved name))

/-- Read a binding of any unit. -/
def member (owner name : String) : InPlace Value := do
  match (← get).namespaces.find? owner with
  | none =>
    if (← get).dependencies.contains owner then
      throw (.reference (.notInitialized owner))
    throw (.reference (.unknownOwner owner))
  | some own =>
    match own.find? name with
    | some value => return value
    | none => throw (.reference (.unresolvedMember owner name))

/-- What a program comes to that has an answer and leaves a new environment, or fails and leaves
the environment as it was. -/
def ofOutcome {α : Type} (env : Environment) :
    Except LookupFault (α × Environment) → EStateM.Result LookupFault Environment α
  | .ok (answer, env') => .ok answer env'
  | .error fault => .error fault env

theorem mapError_ok {ε δ α : Type} (f : ε → δ) (a : α) :
    (Except.ok a).mapError f = .ok a := rfl

theorem mapError_error {ε δ α : Type} (f : ε → δ) (e : ε) :
    (Except.error e : Except ε α).mapError f = .error (f e) := rfl

variable (env : Environment) (unit owner name : String)

@[simp] theorem run_throw {α : Type} (fault : LookupFault) :
    EStateM.run (throw fault : InPlace α) env = .error fault env := rfl

@[simp] theorem run_map {α β : Type} (f : α → β) (x : InPlace α) :
    EStateM.run (f <$> x) env = match x.run env with
      | .ok a env' => .ok (f a) env'
      | .error fault env' => .error fault env' := by
  change EStateM.map f x env = _
  unfold EStateM.map EStateM.run
  cases x env <;> rfl

/-- Nothing has been written when a unit is refused. -/
theorem run_enter : (enter unit).run env =
    ofOutcome env (((env.enter unit).mapError .unit).map fun env' => ((), env')) := by
  unfold enter Environment.enter
  cases h : env.namespaces.contains unit <;>
    simp [h, ofOutcome, writeNamespace, mapError_ok, mapError_error, Except.map]

theorem run_namespaceOf_of_none (h : env.namespaces.find? unit = none) :
    (namespaceOf unit).run env = .error (.unit (.notEntered unit)) env := by
  simp [namespaceOf, h]

theorem run_namespaceOf_of_some {own : Namespace} (h : env.namespaces.find? unit = some own) :
    (namespaceOf unit).run env = .ok own env := by
  simp [namespaceOf, h]

/-- Nothing has been written when a binding is refused. -/
theorem run_set (value : Value) : (set unit name value).run env =
    ofOutcome env (((env.bind unit name value).mapError .unit).map Prod.swap) := by
  unfold set bind
  cases h : env.namespaces.find? unit with
  | none => simp [run_namespaceOf_of_none env unit h, ofOutcome, mapError_error, Except.map]
  | some own =>
    simp [run_namespaceOf_of_some env unit h, ofOutcome, writeNamespace, mapError_ok, Except.map]

theorem run_search (units : List String) :
    (search name units).run env = .ok (env.firstBinding name units) env := by
  induction units with
  | nil => rfl
  | cons unit units ih =>
    rw [firstBinding] at ih ⊢
    rw [search, List.findSome?_cons]
    cases hunit : env.namespaces.find? unit with
    | none => simpa [hunit] using ih
    | some imported => cases hvalue : imported.find? name <;> simp [hunit, hvalue, ih]

/-- Reading a bare name writes nothing. -/
theorem run_lookup : (lookup unit name).run env =
    ofOutcome env ((env.lookup unit name).map (·, env)) := by
  unfold lookup Environment.lookup
  cases h : env.namespaces.find? unit with
  | none => simp [run_namespaceOf_of_none env unit h, ofOutcome, Except.map]
  | some own =>
    cases hown : own.find? name with
    | some value => simp [run_namespaceOf_of_some env unit h, hown, ofOutcome, Except.map]
    | none =>
      have hsearch := run_search env name (env.importsOf unit)
      cases hfirst : env.firstBinding name (env.importsOf unit) with
      | some value =>
        simp [run_namespaceOf_of_some env unit h, hown, hsearch, hfirst, ofOutcome, Except.map]
      | none =>
        simp [run_namespaceOf_of_some env unit h, hown, hsearch, hfirst, ofOutcome, Except.map]

/-- Reading a binding of any unit writes nothing. -/
theorem run_member : (member owner name).run env =
    ofOutcome env (((env.member owner name).mapError .reference).map (·, env)) := by
  unfold member Environment.member
  cases hown : env.namespaces.find? owner with
  | none =>
    cases hknown : env.dependencies.contains owner with
    | true => simp [hown, hknown, ofOutcome, mapError_error, Except.map]
    | false => simp [hown, hknown, ofOutcome, mapError_error, Except.map]
  | some own =>
    cases hvalue : own.find? name with
    | some value => simp [hown, hvalue, ofOutcome, mapError_ok, Except.map]
    | none => simp [hown, hvalue, ofOutcome, mapError_error, Except.map]

end InPlace

end Environment

end ScriptRunner
