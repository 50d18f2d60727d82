import Mathlib.Data.List.Induction
import Mathlib.Data.List.TakeWhile
import ScriptRunner.Environment.InPlace
import ScriptRunner.Proofs.Environment
import ScriptRunner.Proofs.Lists

/-!
# Environments and their histories

What an environment answers is determined by the calls that have been made to it, those that failed
included. A unit has been entered if there is a call that enters it; a binding has been made if its
unit was entered before; and the value of a name is that of the last binding of it. No answer needs
the tables that the environment keeps.

## Main definitions

* `Call`, `Environment.answer`, `Environment.stateAfter` - a call, what it answers, and the
  environment that it leaves.
* `History.entered`, `History.bindings`, `History.lastValue` - what the calls that have been made
  say about units and names.
* `History.expected` - the answer to a call behind a history.
* `Environment.Reflects` - an environment holds what its history says.

## Main statements

* `History.lastValue_eq_some_iff` - the last value of a name is that of its last binding.
* `Reflects.stateAfter` - one more call, whether it fails or not.
* `isDetermined_afterAll` - answers, order and changes come from the history alone.
-/

namespace ScriptRunner

/-- The value of the last of some bindings of a name. -/
def valueIn (name : String) (bindings : List (String × Value)) : Option Value :=
  (bindings.reverse.find? (·.1 = name)).map Prod.snd

/-- The names of some bindings in the order in which they were first bound. -/
def namesIn (bindings : List (String × Value)) : List String :=
  (bindings.map Prod.fst).eraseDups

theorem valueIn_concat (n name : String) (value : Value) (bindings : List (String × Value)) :
    valueIn n (bindings ++ [(name, value)]) =
      if name = n then some value else valueIn n bindings := by
  unfold valueIn
  rw [List.reverse_append, List.reverse_singleton, List.singleton_append, List.find?_cons]
  by_cases h : name = n <;> simp [h]

/-- A namespace holds what has been bound in it. -/
structure Namespace.Holds (own : Namespace) (bindings : List (String × Value)) : Prop where
  keys_eq : own.keys = namesIn bindings
  find?_eq : ∀ name, own.find? name = valueIn name bindings

theorem Namespace.holds_empty : Namespace.Holds .empty [] :=
  ⟨rfl, fun _ => rfl⟩

theorem Namespace.Holds.insert {own : Namespace} {bindings : List (String × Value)}
    (h : own.Holds bindings) (name : String) (value : Value) :
    Namespace.Holds (own.insert name value) (bindings ++ [(name, value)]) where
  keys_eq := by
    have hkeys : own.keys = (bindings.map Prod.fst).eraseDups := h.keys_eq
    rw [namesIn, List.map_append, List.map_singleton, eraseDups_concat, ← hkeys]
    by_cases hname : name ∈ own.keys
    · rw [if_pos hname, Table.keys_insert_of_mem _ hname]
    · rw [if_neg hname, Table.keys_insert_of_not_mem _ hname]
  find?_eq n := by rw [Table.find?_insert, valueIn_concat, h.find?_eq]

namespace Environment

inductive Call where
  | enter (unit : String)
  | set (unit name : String) (value : Value)
  | lookup (unit name : String)
  | member (owner name : String)

inductive Answer where
  | entered
  | bound (rebound : Bool)
  | value (v : Value)

/-- A call as it is carried out. -/
def Call.inPlace : Call → InPlace Answer
  | enter unit => do
    InPlace.enter unit
    return .entered
  | set unit name value => return .bound (← InPlace.set unit name value)
  | lookup unit name => return .value (← InPlace.lookup unit name)
  | member owner name => return .value (← InPlace.member owner name)

/-- A call that enters nothing and binds nothing. -/
def Call.isRead : Call → Bool
  | enter _ | set .. => false
  | lookup .. | member .. => true

section

variable (env : Environment)

/-- The answer to a call. -/
def answer (call : Call) : Except LookupFault Answer :=
  match call.inPlace.run env with
  | .ok a _ => .ok a
  | .error fault _ => .error fault

/-- The environment that a call leaves, whether it fails or not. -/
def stateAfter (call : Call) : Environment :=
  match call.inPlace.run env with
  | .ok _ env' => env'
  | .error _ env' => env'

/-- The answer to a call and the changed environment. -/
def outcome : Call → Except LookupFault (Answer × Environment)
  | .enter unit => ((env.enter unit).mapError .unit).map fun env' => (.entered, env')
  | .set unit name value =>
    ((env.bind unit name value).mapError .unit).map fun result => (.bound result.2, result.1)
  | .lookup unit name => (env.lookup unit name).map fun value => (.value value, env)
  | .member owner name =>
    ((env.member owner name).mapError .reference).map fun value => (.value value, env)

/-- A call in place makes the changed environment, or leaves the environment as it was. -/
theorem run_inPlace (call : Call) :
    call.inPlace.run env = InPlace.ofOutcome env (env.outcome call) := by
  cases call with
  | enter unit =>
    simp only [Call.inPlace, outcome, EStateM.run_bind, InPlace.run_enter]
    cases env.enter unit <;> rfl
  | set unit name value =>
    simp only [Call.inPlace, outcome, EStateM.run_bind, InPlace.run_set]
    cases env.bind unit name value <;> rfl
  | lookup unit name =>
    simp only [Call.inPlace, outcome, EStateM.run_bind, InPlace.run_lookup]
    cases env.lookup unit name <;> rfl
  | member owner name =>
    simp only [Call.inPlace, outcome, EStateM.run_bind, InPlace.run_member]
    cases env.member owner name <;> rfl

theorem answer_eq (call : Call) : env.answer call = (env.outcome call).map Prod.fst := by
  rw [answer, run_inPlace]
  cases env.outcome call <;> rfl

variable {env}

theorem stateAfter_of_ok {call : Call} {a : Answer} {env' : Environment}
    (h : env.outcome call = .ok (a, env')) : env.stateAfter call = env' := by
  rw [stateAfter, run_inPlace, h]
  rfl

/-- A call that fails leaves the environment as it was. -/
theorem stateAfter_of_error {call : Call} {fault : LookupFault}
    (h : env.outcome call = .error fault) : env.stateAfter call = env := by
  rw [stateAfter, run_inPlace, h]
  rfl

/-- A call that only reads leaves the environment as it was. -/
theorem stateAfter_of_isRead {call : Call} (h : call.isRead = true) :
    env.stateAfter call = env := by
  rw [stateAfter, run_inPlace]
  cases call with
  | enter unit => simp [Call.isRead] at h
  | set unit name value => simp [Call.isRead] at h
  | lookup unit name =>
    rw [outcome]
    cases env.lookup unit name <;> rfl
  | member owner name =>
    rw [outcome]
    cases env.member owner name <;> rfl

end

/-- Calls in the order in which they were made. -/
abbrev History := List Call

/-- The environment behind some calls. -/
def afterAll (dependencies : Table String (List String)) (history : History) : Environment :=
  history.foldl stateAfter (start dependencies)

/-- The unit that a call enters. -/
def Call.entered? : Call → Option String
  | enter unit => some unit
  | _ => none

/-- The binding that a call makes in a unit. -/
def Call.binding? (unit : String) : Call → Option (String × Value)
  | set u name value => if u = unit then some (name, value) else none
  | _ => none

namespace History

/-- The units that have been entered, in the order of entry. A second entry is refused. -/
def entered (history : History) : List String :=
  (history.filterMap Call.entered?).eraseDups

/-- The bindings that have been made in a unit, in their order. Those before the entry of the unit
are refused. -/
def bindings (history : History) (unit : String) : List (String × Value) :=
  (history.dropWhile (·.entered? ≠ some unit)).filterMap (Call.binding? unit)

/-- The value of the last binding of a name in a unit. -/
def lastValue (history : History) (unit name : String) : Option Value :=
  valueIn name (history.bindings unit)

/-- The answer to a call behind a history, for units with some direct imports. -/
def expected (history : History) (dependencies : Table String (List String)) :
    Call → Except LookupFault Answer
  | .enter unit =>
    if unit ∈ history.entered then .error (.unit (.enteredTwice unit)) else .ok .entered
  | .set unit name _ =>
    if unit ∈ history.entered then .ok (.bound (history.lastValue unit name).isSome)
    else .error (.unit (.notEntered unit))
  | .lookup unit name =>
    if unit ∈ history.entered then
      -- The unit itself comes before its direct imports.
      match (unit :: (dependencies.find? unit).getD []).findSome? (history.lastValue · name) with
      | some value => .ok (.value value)
      | none => .error (.reference (.unresolved name))
    else .error (.unit (.notEntered unit))
  | .member owner name =>
    if owner ∈ history.entered then
      match history.lastValue owner name with
      | some value => .ok (.value value)
      | none => .error (.reference (.unresolvedMember owner name))
    else if owner ∈ dependencies.keys then .error (.reference (.notInitialized owner))
    else .error (.reference (.unknownOwner owner))

variable {history : History} {unit name : String} {call : Call}

theorem mem_entered_iff : unit ∈ history.entered ↔ ∃ call ∈ history, call.entered? = some unit := by
  rw [entered, List.mem_eraseDups, List.mem_filterMap]

theorem dropWhile_eq_nil_iff :
    history.dropWhile (·.entered? ≠ some unit) = [] ↔ unit ∉ history.entered := by
  rw [List.dropWhile_eq_nil_iff, mem_entered_iff]
  simp

/-- Before its entry nothing is bound in a unit. -/
theorem bindings_of_not_mem (h : unit ∉ history.entered) : history.bindings unit = [] := by
  rw [bindings, dropWhile_eq_nil_iff.2 h, List.filterMap_nil]

theorem lastValue_of_not_mem (h : unit ∉ history.entered) : history.lastValue unit name = none := by
  rw [lastValue, bindings_of_not_mem h]
  rfl

/-- A call that enters nothing adds no unit. -/
theorem entered_concat_of_none (h : call.entered? = none) :
    entered (history ++ [call]) = history.entered := by
  simp [entered, h]

/-- The first entry of a unit adds it at the end. -/
theorem entered_concat_enter : entered (history ++ [.enter unit]) =
    if unit ∈ history.entered then history.entered else history.entered ++ [unit] := by
  rw [entered, List.filterMap_append]
  exact eraseDups_concat _ unit

/-- A call makes a binding if its unit has been entered. -/
theorem bindings_concat : bindings (history ++ [call]) unit = history.bindings unit ++
    if unit ∈ history.entered then (call.binding? unit).toList else [] := by
  unfold bindings
  rw [List.dropWhile_append]
  by_cases h : unit ∈ history.entered
  · have hne : ¬(history.dropWhile (·.entered? ≠ some unit)).isEmpty = true := by
      rw [List.isEmpty_iff, dropWhile_eq_nil_iff]
      exact not_not_intro h
    rw [if_neg hne, if_pos h, List.filterMap_append]
    cases hcall : call.binding? unit <;> simp [hcall]
  · -- Only the new call may enter the unit, and that binds nothing.
    rw [if_neg h, dropWhile_eq_nil_iff.2 h, List.isEmpty_nil, if_pos rfl, List.filterMap_nil,
      List.append_nil]
    cases call with
    | enter u => by_cases hu : u = unit <;> simp [Call.entered?, Call.binding?, hu]
    | set u name value => simp [Call.entered?]
    | lookup u name => simp [Call.entered?]
    | member u name => simp [Call.entered?]

theorem bindings_concat_of_none (h : call.binding? unit = none) :
    bindings (history ++ [call]) unit = history.bindings unit := by
  rw [bindings_concat, h]
  by_cases hmem : unit ∈ history.entered <;> simp [hmem]

theorem bindings_concat_of_not_mem (h : unit ∉ history.entered) :
    bindings (history ++ [call]) unit = history.bindings unit := by
  rw [bindings_concat, if_neg h, List.append_nil]

/-- A binding in a unit that has been entered. -/
theorem bindings_concat_set {value : Value} (h : unit ∈ history.entered) :
    bindings (history ++ [.set unit name value]) unit =
      history.bindings unit ++ [(name, value)] := by
  rw [bindings_concat, if_pos h]
  simp [Call.binding?]

/-- A name has been bound to a value in a unit that had been entered, and not bound again. -/
def LastBinds (history : History) (unit name : String) (value : Value) : Prop :=
  ∃ front behind : History, history = front ++ .set unit name value :: behind ∧
    unit ∈ front.entered ∧ ∀ v, .set unit name v ∉ behind

theorem lastBinds_concat_iff {value : Value} : LastBinds (history ++ [call]) unit name value ↔
    (call = .set unit name value ∧ unit ∈ history.entered) ∨
      (history.LastBinds unit name value ∧ ∀ v, call ≠ .set unit name v) := by
  constructor
  · rintro ⟨front, behind, hsplit, hmem, hbehind⟩
    rcases List.eq_nil_or_concat behind with rfl | ⟨init, last, rfl⟩
    · obtain ⟨rfl, hlast⟩ := List.append_inj' hsplit rfl
      exact .inl ⟨List.singleton_inj.1 hlast, hmem⟩
    · rw [List.concat_eq_append] at hsplit hbehind
      rw [← List.cons_append, ← List.append_assoc] at hsplit
      obtain ⟨rfl, hlast⟩ := List.append_inj' hsplit rfl
      obtain rfl := List.singleton_inj.1 hlast
      refine .inr ⟨⟨front, init, rfl, hmem, fun v hv => hbehind v (by simp [hv])⟩, ?_⟩
      rintro v rfl
      exact hbehind v (by simp)
  · rintro (⟨rfl, hmem⟩ | ⟨⟨front, behind, rfl, hmem, hbehind⟩, hcall⟩)
    · exact ⟨history, [], rfl, hmem, by simp⟩
    · refine ⟨front, behind ++ [call], by simp, hmem, fun v hv => ?_⟩
      rcases List.mem_append.1 hv with hv | hv
      · exact hbehind v hv
      · exact hcall v (List.mem_singleton.1 hv).symm

/-- What is no binding of a name does not change its value. -/
theorem lastValue_concat_of_ne (h : ∀ value, call ≠ .set unit name value) :
    lastValue (history ++ [call]) unit name = history.lastValue unit name := by
  unfold lastValue
  by_cases hmem : unit ∈ history.entered
  · cases hbinding : call.binding? unit with
    | none => rw [bindings_concat_of_none hbinding]
    | some binding =>
      cases call with
      | set u n value =>
        by_cases hu : u = unit
        · subst hu
          have hn : n ≠ name := fun hn => h value (hn ▸ rfl)
          rw [bindings_concat_set hmem, valueIn_concat, if_neg hn]
        · simp [Call.binding?, hu] at hbinding
      | _ => simp [Call.binding?] at hbinding
  · rw [bindings_concat_of_not_mem hmem]

/-- The last value of a name is that of the last binding of it. -/
theorem lastValue_eq_some_iff {value : Value} :
    history.lastValue unit name = some value ↔ history.LastBinds unit name value := by
  induction history using List.reverseRecOn with
  | nil => simp [lastValue, bindings, valueIn, LastBinds]
  | append_singleton history call ih =>
    rw [lastBinds_concat_iff, ← ih]
    by_cases hcall : ∃ v, call = .set unit name v
    · obtain ⟨v, rfl⟩ := hcall
      by_cases hmem : unit ∈ entered history
      · rw [lastValue, bindings_concat_set hmem, valueIn_concat, if_pos rfl]
        simp [hmem]
      · rw [lastValue, bindings_concat_of_not_mem hmem, ← lastValue, lastValue_of_not_mem hmem]
        simp [hmem]
    · have hne := not_exists.1 hcall
      rw [lastValue_concat_of_ne hne]
      simp [hne]

end History

/-- An environment holds what its history says. -/
structure Reflects (history : History) (dependencies : Table String (List String))
    (env : Environment) : Prop where
  dependencies_eq : env.dependencies = dependencies
  keys_eq : env.namespaces.keys = history.entered
  holds : ∀ unit own, env.namespaces.find? unit = some own → own.Holds (history.bindings unit)

namespace Reflects

variable {env : Environment} {history : History} {dependencies : Table String (List String)}
  {unit name : String}

theorem start (dependencies : Table String (List String)) :
    Reflects [] dependencies (start dependencies) where
  dependencies_eq := rfl
  keys_eq := rfl
  holds _ _ h := by simp [Environment.start] at h

theorem find?_eq_none (h : Reflects history dependencies env) (hunit : unit ∉ history.entered) :
    env.namespaces.find? unit = none := by
  rwa [Table.find?_eq_none_iff, h.keys_eq]

theorem mem_entered (h : Reflects history dependencies env) {own : Namespace}
    (hown : env.namespaces.find? unit = some own) : unit ∈ history.entered :=
  h.keys_eq ▸ Table.mem_keys_of_find? hown

theorem exists_find? (h : Reflects history dependencies env) (hunit : unit ∈ history.entered) :
    ∃ own, env.namespaces.find? unit = some own ∧
      ∀ name, own.find? name = history.lastValue unit name := by
  obtain ⟨own, hown⟩ := Table.exists_find?_of_mem_keys (h.keys_eq ▸ hunit)
  exact ⟨own, hown, (h.holds unit own hown).find?_eq⟩

theorem contains_eq (h : Reflects history dependencies env) (unit : String) :
    env.namespaces.contains unit = decide (unit ∈ history.entered) := by
  rw [Bool.eq_iff_iff, Table.contains_iff_mem_keys, h.keys_eq, decide_eq_true_iff]

theorem firstBinding_eq (h : Reflects history dependencies env) (name : String)
    (units : List String) :
    env.firstBinding name units = units.findSome? (history.lastValue · name) := by
  unfold firstBinding
  congr 1
  funext unit
  by_cases hunit : unit ∈ history.entered
  · obtain ⟨own, hown, hvalue⟩ := h.exists_find? hunit
    rw [hown, Option.bind_some, hvalue]
  · rw [h.find?_eq_none hunit, History.lastValue_of_not_mem hunit]
    rfl

theorem answer_enter (h : Reflects history dependencies env) (unit : String) :
    env.answer (.enter unit) = history.expected dependencies (.enter unit) := by
  have hcontains := h.contains_eq unit
  by_cases hunit : unit ∈ history.entered <;>
    simp [answer_eq, outcome, enter, hcontains, History.expected, hunit, Except.mapError,
      Except.map]

theorem answer_set (h : Reflects history dependencies env) (unit name : String) (value : Value) :
    env.answer (.set unit name value) = history.expected dependencies (.set unit name value) := by
  rw [answer_eq, outcome, bind, History.expected]
  by_cases hunit : unit ∈ history.entered
  · obtain ⟨own, hown, hvalue⟩ := h.exists_find? hunit
    rw [hown, if_pos hunit, ← hvalue]
    rfl
  · rw [h.find?_eq_none hunit, if_neg hunit]
    rfl

theorem answer_lookup (h : Reflects history dependencies env) (unit name : String) :
    env.answer (.lookup unit name) = history.expected dependencies (.lookup unit name) := by
  rw [answer_eq, outcome, Environment.lookup, History.expected]
  by_cases hunit : unit ∈ history.entered
  · obtain ⟨own, hown, hvalue⟩ := h.exists_find? hunit
    have himports : env.importsOf unit = (dependencies.find? unit).getD [] := by
      rw [importsOf, h.dependencies_eq]
    rw [hown, if_pos hunit, List.findSome?_cons, ← himports, ← h.firstBinding_eq, ← hvalue]
    dsimp only
    cases own.find? name with
    | some value => rfl
    | none => cases env.firstBinding name (env.importsOf unit) <;> rfl
  · rw [h.find?_eq_none hunit, if_neg hunit]
    rfl

theorem answer_member (h : Reflects history dependencies env) (owner name : String) :
    env.answer (.member owner name) = history.expected dependencies (.member owner name) := by
  rw [answer_eq, outcome, Environment.member, History.expected]
  by_cases howner : owner ∈ history.entered
  · obtain ⟨own, hown, hvalue⟩ := h.exists_find? howner
    rw [hown, if_pos howner, ← hvalue]
    dsimp only
    cases own.find? name <;> rfl
  · rw [h.find?_eq_none howner, if_neg howner, h.dependencies_eq]
    dsimp only
    by_cases hknown : owner ∈ dependencies.keys
    · rw [if_pos ((Table.contains_iff_mem_keys _ _).2 hknown), if_pos hknown]
      rfl
    · rw [if_neg (mt (Table.contains_iff_mem_keys _ _).1 hknown), if_neg hknown]
      rfl

/-- What an environment answers is what its history says. -/
theorem answer (h : Reflects history dependencies env) (call : Call) :
    env.answer call = history.expected dependencies call := by
  cases call with
  | enter unit => exact h.answer_enter unit
  | set unit name value => exact h.answer_set unit name value
  | lookup unit name => exact h.answer_lookup unit name
  | member owner name => exact h.answer_member owner name

/-- A call that enters nothing and binds nothing. -/
theorem same (h : Reflects history dependencies env) {call : Call}
    (hentered : History.entered (history ++ [call]) = history.entered)
    (hbindings : ∀ unit ∈ history.entered,
      History.bindings (history ++ [call]) unit = history.bindings unit) :
    Reflects (history ++ [call]) dependencies env where
  dependencies_eq := h.dependencies_eq
  keys_eq := h.keys_eq.trans hentered.symm
  holds unit own hown := by
    rw [hbindings unit (h.mem_entered hown)]
    exact h.holds unit own hown

/-- The entry of a new unit. -/
theorem enter (h : Reflects history dependencies env) (hunit : unit ∉ history.entered) :
    Reflects (history ++ [.enter unit]) dependencies
      { env with namespaces := env.namespaces.insert unit .empty } where
  dependencies_eq := h.dependencies_eq
  keys_eq := by
    rw [History.entered_concat_enter, if_neg hunit, ← h.keys_eq]
    exact Table.keys_insert_of_not_mem _ (h.keys_eq ▸ hunit)
  holds u own hown := by
    rw [Table.find?_insert] at hown
    rw [History.bindings_concat_of_none rfl]
    by_cases hu : unit = u
    · subst hu
      rw [if_pos rfl] at hown
      obtain rfl := Option.some.inj hown
      rw [History.bindings_of_not_mem hunit]
      exact Namespace.holds_empty
    · rw [if_neg hu] at hown
      exact h.holds u own hown

/-- A binding in a unit that has been entered. -/
theorem bind (h : Reflects history dependencies env) {value : Value} {own : Namespace}
    (hown : env.namespaces.find? unit = some own) :
    Reflects (history ++ [.set unit name value]) dependencies
      { env with namespaces := env.namespaces.insert unit (own.insert name value) } where
  dependencies_eq := h.dependencies_eq
  keys_eq := by
    rw [History.entered_concat_of_none rfl, ← h.keys_eq]
    exact Table.keys_insert_of_mem _ (Table.mem_keys_of_find? hown)
  holds u own' hown' := by
    rw [Table.find?_insert] at hown'
    by_cases hu : unit = u
    · subst hu
      rw [if_pos rfl] at hown'
      obtain rfl := Option.some.inj hown'
      rw [History.bindings_concat_set (h.mem_entered hown)]
      exact (h.holds unit own hown).insert name value
    · have hother : (Call.set unit name value).binding? u = none := if_neg hu
      rw [if_neg hu] at hown'
      rw [History.bindings_concat_of_none hother]
      exact h.holds u own' hown'

/-- One more call, whether it fails or not. -/
theorem stateAfter (h : Reflects history dependencies env) (call : Call) :
    Reflects (history ++ [call]) dependencies (env.stateAfter call) := by
  cases call with
  | enter unit =>
    have hcontains := h.contains_eq unit
    by_cases hunit : unit ∈ history.entered
    · have hrefused : env.outcome (.enter unit) = .error (.unit (.enteredTwice unit)) := by
        simp [outcome, Environment.enter, hcontains, hunit, Except.mapError, Except.map]
      rw [stateAfter_of_error hrefused]
      refine h.same ?_ fun u _ => History.bindings_concat_of_none rfl
      rw [History.entered_concat_enter, if_pos hunit]
    · have hentered : env.outcome (.enter unit) =
          .ok (.entered, { env with namespaces := env.namespaces.insert unit .empty }) := by
        simp [outcome, Environment.enter, hcontains, hunit, Except.mapError, Except.map]
      rw [stateAfter_of_ok hentered]
      exact h.enter hunit
  | set unit name value =>
    cases hown : env.namespaces.find? unit with
    | none =>
      have hrefused : env.outcome (.set unit name value) = .error (.unit (.notEntered unit)) := by
        simp [outcome, Environment.bind, hown, Except.mapError, Except.map]
      rw [stateAfter_of_error hrefused]
      refine h.same (History.entered_concat_of_none rfl) fun u hu => ?_
      have hne : ¬unit = u := by
        rintro rfl
        obtain ⟨own, hown', -⟩ := h.exists_find? hu
        simp [hown] at hown'
      have hother : (Call.set unit name value).binding? u = none := if_neg hne
      exact History.bindings_concat_of_none hother
    | some own =>
      have hbound : env.outcome (.set unit name value) = .ok (.bound (own.contains name),
          { env with namespaces := env.namespaces.insert unit (own.insert name value) }) := by
        simp [outcome, Environment.bind, hown, Except.mapError, Except.map]
      rw [stateAfter_of_ok hbound]
      exact h.bind hown
  | lookup unit name =>
    rw [stateAfter_of_isRead rfl]
    exact h.same (History.entered_concat_of_none rfl) fun u _ => History.bindings_concat_of_none rfl
  | member owner name =>
    rw [stateAfter_of_isRead rfl]
    exact h.same (History.entered_concat_of_none rfl) fun u _ => History.bindings_concat_of_none rfl

/-- Any calls. -/
theorem afterAll (dependencies : Table String (List String)) (history : History) :
    Reflects history dependencies (afterAll dependencies history) := by
  induction history using List.reverseRecOn with
  | nil => exact start dependencies
  | append_singleton history call ih =>
    rw [Environment.afterAll, List.foldl_append]
    exact ih.stateAfter call

end Reflects

/-- The failures of a name with its unit in front read differently. -/
theorem nodup_message_member (owner name : String) :
    ([ReferenceFault.unresolvedMember owner name, .notInitialized owner, .unknownOwner owner].map
      ReferenceFault.message).Nodup := by
  change (["Unresolved reference: " ++ owner ++ "." ++ name,
    "Script '" ++ owner ++ "' is not initialized yet", "Unresolved reference: " ++ owner]).Nodup
  have hstart : ∀ x y : String, "Unresolved reference: " ++ x ≠ "Script '" ++ y := by
    intro x y h
    have hhead := congrArg List.head? (congrArg String.toList h)
    rw [String.toList_append, String.toList_append] at hhead
    exact absurd (Option.some.inj hhead) (by decide)
  have hlonger : "Unresolved reference: " ++ owner ++ "." ++ name ≠
      "Unresolved reference: " ++ owner := by
    intro h
    have hlength := congrArg String.length h
    have hpoint : ".".length = 1 := rfl
    simp only [String.length_append] at hlength
    omega
  have hmember : "Unresolved reference: " ++ owner ++ "." ++ name ≠
      "Script '" ++ owner ++ "' is not initialized yet" := by
    rw [String.append_assoc, String.append_assoc, String.append_assoc]
    exact hstart _ _
  have howner : "Script '" ++ owner ++ "' is not initialized yet" ≠
      "Unresolved reference: " ++ owner := by
    rw [String.append_assoc]
    exact (hstart _ _).symm
  simp only [List.nodup_cons, List.mem_cons, List.not_mem_nil, or_false, not_or]
  exact ⟨⟨hmember, hlonger⟩, howner, not_false, List.nodup_nil⟩

/-- Everything that an environment shows comes from its history. -/
structure IsDetermined (env : Environment) (history : History)
    (dependencies : Table String (List String)) : Prop where
  /-- The answer to any call, failures included. -/
  answer_eq : ∀ call, env.answer call = history.expected dependencies call
  /-- Reads and failing calls change nothing. -/
  stays : ∀ call, call.isRead = true ∨ (∃ fault, env.answer call = .error fault) →
    (env.stateAfter call).namespaces = env.namespaces
  /-- The units are in the order of entry. -/
  units_eq : env.namespaces.keys = history.entered
  /-- The names of a unit are in the order in which they were first bound. -/
  names_eq : ∀ unit own, env.namespaces.find? unit = some own →
    own.keys = namesIn (history.bindings unit)
  /-- A name has the value that it was bound to last. -/
  value_eq_some_iff : ∀ unit own, env.namespaces.find? unit = some own →
    ∀ name value, own.find? name = some value ↔ history.LastBinds unit name value

/-- Behind any calls, those that failed included, an environment is determined by them; and the
three failures of a name with its unit in front read differently. -/
theorem isDetermined_afterAll (dependencies : Table String (List String)) (history : History) :
    (afterAll dependencies history).IsDetermined history dependencies ∧
      ∀ owner name, ([ReferenceFault.unresolvedMember owner name, .notInitialized owner,
        .unknownOwner owner].map ReferenceFault.message).Nodup := by
  have h := Reflects.afterAll dependencies history
  refine ⟨⟨h.answer, ?_, h.keys_eq, fun unit own hown => (h.holds unit own hown).keys_eq, ?_⟩,
    nodup_message_member⟩
  · rintro call (hread | ⟨fault, hfault⟩)
    · rw [stateAfter_of_isRead hread]
    · rw [answer_eq] at hfault
      cases houtcome : (afterAll dependencies history).outcome call with
      | ok result => simp [houtcome, Except.map] at hfault
      | error fault' => rw [stateAfter_of_error houtcome]
  · intro unit own hown name value
    rw [(h.holds unit own hown).find?_eq, ← History.lastValue, History.lastValue_eq_some_iff]

/-- A unit that imports itself and another one twice, bindings before and behind an entry. -/
example : (afterAll (.ofList [("b", ["b", "a", "a"])])
    [.set "a" "x" (.boolean false), .enter "a", .set "a" "x" (.boolean true), .enter "b",
      .enter "a"]).answer (.lookup "b" "x") = .ok (.value (.boolean true)) := rfl

end Environment

end ScriptRunner
