import ScriptRunner.Environment

/-!
# Bindings and the meaning of names

What a binding changes, and what the success and the failure of a lookup say about the name.

## Main statements

* `Environment.bind_eq_ok` - a binding that has been made.
* `Environment.lookup_eq_ok_iff`, `Environment.lookup_eq_error_iff` - a bare name with a meaning and
  one without.
* `Environment.member_eq_error_iff` - a name with its unit in front and without a meaning.
-/

namespace ScriptRunner.Environment

variable {env : Environment} {unit owner name : String}

/-- A binding changes the namespace of its unit, which has been entered. -/
theorem bind_eq_ok {value : Value} {env' : Environment} {rebound : Bool}
    (h : env.bind unit name value = .ok (env', rebound)) :
    ∃ own, env.namespaces.find? unit = some own ∧ rebound = own.contains name ∧
      env' = { env with namespaces := env.namespaces.insert unit (own.insert name value) } := by
  unfold bind at h
  split at h
  · simp at h
  next own hown =>
    obtain ⟨rfl, rfl⟩ := Prod.mk.inj (Except.ok.inj h)
    exact ⟨own, hown, rfl, rfl⟩

/-- In a unit that has been entered a bare name means what the unit itself has bound it to, or what
the first of its direct imports has that binds it. -/
theorem lookup_eq_ok_iff {own : Namespace} (hown : env.namespaces.find? unit = some own)
    {value : Value} : env.lookup unit name = .ok value ↔ own.find? name = some value ∨
      own.find? name = none ∧ env.firstBinding name (env.importsOf unit) = some value := by
  unfold lookup
  rw [hown]
  cases hlocal : own.find? name with
  | some v => simp [hlocal]
  | none => cases env.firstBinding name (env.importsOf unit) <;> simp [hlocal]

/-- A bare name has no meaning because its unit has not been entered, or because neither the unit
nor a direct import binds it. -/
theorem lookup_eq_error_iff {fault : LookupFault} : env.lookup unit name = .error fault ↔
    (unit ∉ env.namespaces.keys ∧ fault = .unit (.notEntered unit)) ∨
    (∃ own, env.namespaces.find? unit = some own ∧ own.find? name = none ∧
      env.firstBinding name (env.importsOf unit) = none ∧
      fault = .reference (.unresolved name)) := by
  rw [← Table.find?_eq_none_iff]
  unfold lookup
  cases env.namespaces.find? unit with
  | none => simp [eq_comm]
  | some own =>
    cases hlocal : own.find? name with
    | some v => simp [hlocal]
    | none =>
      cases env.firstBinding name (env.importsOf unit) <;> simp [hlocal, eq_comm]

/-- A name with its unit in front has no meaning because the unit has not been entered, because
there is no such unit, or because the unit does not bind it. -/
theorem member_eq_error_iff {fault : ReferenceFault} : env.member owner name = .error fault ↔
    (owner ∉ env.namespaces.keys ∧ owner ∈ env.dependencies.keys ∧
      fault = .notInitialized owner) ∨
    (owner ∉ env.namespaces.keys ∧ owner ∉ env.dependencies.keys ∧ fault = .unknownOwner owner) ∨
    (∃ own, env.namespaces.find? owner = some own ∧ own.find? name = none ∧
      fault = .unresolvedMember owner name) := by
  rw [← Table.find?_eq_none_iff]
  unfold member
  cases env.namespaces.find? owner with
  | some own => cases hlocal : own.find? name <;> simp [hlocal, eq_comm]
  | none =>
    by_cases hknown : owner ∈ env.dependencies.keys
    · simp [(Table.contains_iff_mem_keys _ _).2 hknown, hknown, eq_comm]
    · have hcontains : env.dependencies.contains owner = false := by
        rw [← Bool.not_eq_true, Table.contains_iff_mem_keys]
        exact hknown
      simp [hcontains, hknown, eq_comm]

end ScriptRunner.Environment
