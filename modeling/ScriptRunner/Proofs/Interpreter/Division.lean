import Mathlib.Data.Rat.Floor
import Mathlib.Tactic.FieldSimp
import Mathlib.Tactic.Linarith
import ScriptRunner.Proofs.Interpreter.IntegerText

/-!
# Division of integers

Quotient and remainder are computed apart, each from the absolute values of the operands and with a
sign test of its own: the quotient compares both signs, the remainder looks at the dividend only.
Together they are the division that cuts fractions off, for all signs of the operands. A divisor
that is zero never gets so far; it ends the evaluation with an error at the place of the operator.

## Main definitions

* `IsTruncatedDivision` - quotient and remainder of a division that cuts fractions off.
* `towardZero` - a fraction rounded to an integer in the direction of zero.
* `Interpreter.Computes` - the value of an operator for two integers.
* `Interpreter.StopsAtZero` - an operator that does not take zero on its right.

## Main statements

* `IsTruncatedDivision.quotient_eq` - the quotient is the fraction, rounded toward zero.
* `IsTruncatedDivision.unique` - there is only one quotient and only one remainder.
* `ArithmeticOperator.isTruncatedDivision` - what comes of the two sign tests.
* `Interpreter.truncates_or_stops` - what scripts get when they divide integers.
-/

namespace ScriptRunner

/-- The quotient times the divisor and the remainder make up the dividend. The remainder is smaller
than the divisor, and it is zero or has the sign of the dividend. -/
structure IsTruncatedDivision (a b q r : Int) : Prop where
  eq : a = q * b + r
  remainder_lt : |r| < |b|
  sign : r = 0 ∨ r.sign = a.sign

/-- A fraction rounded to an integer in the direction of zero. -/
def towardZero (x : ℚ) : Int :=
  if 0 ≤ x then ⌊x⌋ else ⌈x⌉

theorem abs_towardZero_le (x : ℚ) : |(towardZero x : ℚ)| ≤ |x| := by
  unfold towardZero
  by_cases hx : 0 ≤ x
  · have hfloor : 0 ≤ ⌊x⌋ := Int.floor_nonneg.2 hx
    rw [if_pos hx, abs_of_nonneg hx, abs_of_nonneg (by exact_mod_cast hfloor)]
    exact Int.floor_le x
  · have hx' : x ≤ 0 := le_of_not_ge hx
    have hceil : ⌈x⌉ ≤ 0 := Int.ceil_nonpos.2 hx'
    rw [if_neg hx, abs_of_nonpos hx', abs_of_nonpos (by exact_mod_cast hceil), neg_le_neg_iff]
    exact Int.le_ceil x

namespace IsTruncatedDivision

variable {a b q r q' r' : Int}

theorem divisor_ne_zero (h : IsTruncatedDivision a b q r) : b ≠ 0 := by
  intro hb
  have hlt := h.remainder_lt
  rw [hb, abs_zero] at hlt
  exact absurd hlt (abs_nonneg r).not_gt

/-- The remainder is on the side of zero on which the dividend is. -/
theorem remainder_nonneg (h : IsTruncatedDivision a b q r) (ha : 0 ≤ a) : 0 ≤ r := by
  rcases h.sign with hr | hr
  · exact hr.ge
  · exact Int.sign_nonneg_iff.1 (hr ▸ Int.sign_nonneg_iff.2 ha)

theorem remainder_nonpos (h : IsTruncatedDivision a b q r) (ha : a ≤ 0) : r ≤ 0 := by
  rcases h.sign with hr | hr
  · exact hr.le
  · exact Int.sign_nonpos_iff.1 (hr ▸ Int.sign_nonpos_iff.2 ha)

/-- The quotient is the fraction of dividend and divisor, rounded toward zero. -/
theorem quotient_eq (h : IsTruncatedDivision a b q r) : q = towardZero (a / b) := by
  have hb : (b : ℚ) ≠ 0 := by exact_mod_cast h.divisor_ne_zero
  have hfraction : (a : ℚ) / b = q + r / b := by
    rw [h.eq]
    push_cast
    field_simp
  have hsmall : |(r : ℚ) / b| < 1 := by
    rw [abs_div, div_lt_one (abs_pos.2 hb)]
    exact_mod_cast h.remainder_lt
  obtain ⟨hlower, hupper⟩ := abs_lt.1 hsmall
  unfold towardZero
  by_cases hx : 0 ≤ (a : ℚ) / b
  · -- Dividend and divisor are on one side of zero, so what is cut off is not negative.
    have hrest : 0 ≤ (r : ℚ) / b := by
      rcases div_nonneg_iff.1 hx with ⟨ha, hb⟩ | ⟨ha, hb⟩
      · have hr : 0 ≤ r := h.remainder_nonneg (by exact_mod_cast ha)
        exact div_nonneg (by exact_mod_cast hr) hb
      · have hr : r ≤ 0 := h.remainder_nonpos (by exact_mod_cast ha)
        exact div_nonneg_of_nonpos (by exact_mod_cast hr) hb
    rw [if_pos hx, hfraction, Int.floor_intCast_add, Int.floor_eq_zero_iff.2 ⟨hrest, hupper⟩,
      add_zero]
  · have hrest : (r : ℚ) / b ≤ 0 := by
      rcases div_neg_iff.1 (not_le.1 hx) with ⟨ha, hb⟩ | ⟨ha, hb⟩
      · have hr : 0 ≤ r := h.remainder_nonneg (by exact_mod_cast ha.le)
        exact div_nonpos_of_nonneg_of_nonpos (by exact_mod_cast hr) hb.le
      · have hr : r ≤ 0 := h.remainder_nonpos (by exact_mod_cast ha.le)
        exact div_nonpos_of_nonpos_of_nonneg (by exact_mod_cast hr) hb.le
    rw [if_neg hx, hfraction, Int.ceil_intCast_add, Int.ceil_eq_zero_iff.2 ⟨hlower, hrest⟩,
      add_zero]

theorem abs_mul_le (h : IsTruncatedDivision a b q r) : |q * b| ≤ |a| := by
  have hb : 0 < |(b : ℚ)| := by
    rw [abs_pos]
    exact_mod_cast h.divisor_ne_zero
  have hle := abs_towardZero_le (a / b)
  rw [← h.quotient_eq, abs_div, le_div_iff₀ hb] at hle
  rw [abs_mul]
  exact_mod_cast hle

theorem unique (h : IsTruncatedDivision a b q r) (h' : IsTruncatedDivision a b q' r') :
    q' = q ∧ r' = r := by
  have hq : q' = q := h'.quotient_eq.trans h.quotient_eq.symm
  have heq := h.eq
  have heq' := h'.eq
  subst hq
  exact ⟨rfl, by omega⟩

end IsTruncatedDivision

namespace ArithmeticOperator

/-- Comparing the signs of the operands is multiplying them: where the dividend is zero, both ways
give zero. -/
theorem intQuotient_eq (a : Int) {b : Int} (hb : b ≠ 0) :
    intQuotient a b = a.sign * b.sign * (a.natAbs / b.natAbs : ℕ) := by
  unfold intQuotient
  rcases lt_trichotomy a 0 with ha | rfl | ha
  · rcases lt_or_gt_of_ne hb with hb | hb
    · simp [ha, hb, Int.sign_eq_neg_one_of_neg]
    · simp [ha, hb.not_gt, Int.sign_eq_neg_one_of_neg, Int.sign_eq_one_of_pos hb]
  · simp
  · rcases lt_or_gt_of_ne hb with hb | hb
    · simp [ha.not_gt, hb, Int.sign_eq_neg_one_of_neg, Int.sign_eq_one_of_pos ha]
    · simp [ha.not_gt, hb.not_gt, Int.sign_eq_one_of_pos, ha, hb]

theorem intRemainder_eq (a b : Int) :
    intRemainder a b = a.sign * (a.natAbs % b.natAbs : ℕ) := by
  unfold intRemainder
  rcases lt_trichotomy a 0 with ha | rfl | ha
  · simp [ha.not_ge, Int.sign_eq_neg_one_of_neg ha]
  · simp
  · simp [ha.le, Int.sign_eq_one_of_pos ha]

/-- The two sign tests fit together: what comes of them is a division that cuts fractions off. -/
theorem isTruncatedDivision (a : Int) {b : Int} (hb : b ≠ 0) :
    IsTruncatedDivision a b (intQuotient a b) (intRemainder a b) := by
  rw [intQuotient_eq a hb, intRemainder_eq]
  have hsize : (b.natAbs * (a.natAbs / b.natAbs : ℕ) + (a.natAbs % b.natAbs : ℕ) : Int) =
      a.natAbs := by
    exact_mod_cast Nat.div_add_mod a.natAbs b.natAbs
  have hlt : a.natAbs % b.natAbs < b.natAbs := Nat.mod_lt _ (Int.natAbs_pos.2 hb)
  generalize a.natAbs / b.natAbs = quotient at hsize
  generalize a.natAbs % b.natAbs = remainder at hsize hlt
  constructor
  · calc a
      _ = a.sign * a.natAbs := (Int.sign_mul_natAbs a).symm
      _ = a.sign * (b.sign * b * quotient + remainder) := by
        rw [← hsize, Int.sign_mul_self_eq_natAbs]
      _ = a.sign * b.sign * quotient * b + a.sign * remainder := by ring
  · have hsign : a.sign.natAbs ≤ 1 := by
      rw [Int.natAbs_sign]
      split <;> omega
    rw [Int.abs_eq_natAbs, Int.abs_eq_natAbs, Nat.cast_lt, Int.natAbs_mul, Int.natAbs_natCast]
    calc a.sign.natAbs * remainder
      _ ≤ 1 * remainder := Nat.mul_le_mul_right remainder hsign
      _ = remainder := Nat.one_mul remainder
      _ < b.natAbs := hlt
  · by_cases hr : remainder = 0
    · left
      rw [hr, Nat.cast_zero, mul_zero]
    · right
      have hone : (remainder : Int).sign = 1 := Int.sign_eq_one_of_pos (by omega)
      rw [Int.sign_mul, Int.sign_sign, hone, mul_one]

variable {o : ArithmeticOperator}

theorem apply_of_ne_zero (ho : o.dividesBy = true) (a : Int) {b : Int} (hb : b ≠ 0) :
    Operator.apply (.arithmetic o) (.int a) (.int b) = .ok (.int (o.onInts a b)) := by
  cases o <;>
    simp_all [dividesBy, Operator.apply, Operator.applyArithmetic, Value.isNumber, Value.isZero,
      onNumbers]

/-- The divisor is looked at before anything is divided. -/
theorem apply_zero (ho : o.dividesBy = true) (a : Int) :
    Operator.apply (.arithmetic o) (.int a) (.int 0) = .error .divisionByZero := by
  cases o <;>
    simp_all [dividesBy, Operator.apply, Operator.applyArithmetic, Value.isNumber, Value.isZero]

end ArithmeticOperator

namespace Interpreter

open Script

/-- An operator has a value for two integers, wherever they are the values of its operands. -/
def Computes (o : ArithmeticOperator) (a b : Int) (v : Value) : Prop :=
  ∀ env unit left right span, eval env unit left = .ok (.int a) →
    eval env unit right = .ok (.int b) →
    eval env unit (.binary (.arithmetic o) left right span) = .ok v

theorem computes_of_ne_zero {o : ArithmeticOperator} (ho : o.dividesBy = true) (a : Int)
    {b : Int} (hb : b ≠ 0) : Computes o a b (.int (o.onInts a b)) := by
  intro env unit left right span hleft hright
  simp [eval, hleft, hright, ArithmeticOperator.apply_of_ne_zero ho a hb, bind, Except.bind,
    Except.mapError]

/-- The error of a unit that divides by zero. -/
def divisionByZero (u : ParsedUnit) (span : Span) : Diagnostic :=
  ⟨.error, s!"{u.1.name}: " ++ "Division by zero", some (.ofSpan u.1.path.toString span)⟩

variable [CharacterNames]

/-- An operator does not take zero on the right of an integer: the expression has no value, and the
evaluation that gets to it ends with an error at its place. -/
structure StopsAtZero (o : ArithmeticOperator) (a : Int) : Prop where
  expression : ∀ env unit left right span, eval env unit left = .ok (.int a) →
    eval env unit right = .ok (.int 0) →
    eval env unit (.binary (.arithmetic o) left right span) =
      .error (.ofOperator span .divisionByZero)
  evaluation : ∀ r before u after st q left right span, (r.units.map (·.name)).Nodup →
    ArrivesAt r before u after st q →
    Evaluates q.1.environment u.1.name st.body (.binary (.arithmetic o) left right span) →
    eval q.1.environment u.1.name left = .ok (.int a) →
    eval q.1.environment u.1.name right = .ok (.int 0) →
    ∃ e, EndsWith r q (divisionByZero u span) e

section

variable {o : ArithmeticOperator}

theorem stopsAtZero (ho : o.dividesBy = true) (a : Int) : StopsAtZero o a where
  expression := by
    intro env unit left right span hleft hright
    exact eval_of_failsAt (.apply hleft hright (ArithmeticOperator.apply_zero ho a))
  evaluation := by
    intro r before u after st q left right span hnames harrives hpart hleft hright
    have hfails : FailsAt q.1.environment u.1.name st.body (.ofOperator span .divisionByZero) :=
      hpart.failsAt (.apply hleft hright (ArithmeticOperator.apply_zero ho a))
    exact harrives.exists_endsWith hnames (perform_of_failsAt hfails)

/-- An operator that divides has values for exactly the divisors that are not zero. -/
theorem exists_computes_iff (ho : o.dividesBy = true) (a b : Int) :
    (∃ v, Computes o a b v) ↔ b ≠ 0 := by
  constructor
  · rintro ⟨v, hv⟩ rfl
    -- Two literals are operands that have the integers as their values.
    let span : Span := default
    have hvalue := hv (.start .empty) "" (.literal (.int a) span) (.literal (.int 0) span) span
      rfl rfl
    have hstop := (stopsAtZero ho a).expression (.start .empty) "" (.literal (.int a) span)
      (.literal (.int 0) span) span rfl rfl
    exact absurd (hvalue.symm.trans hstop) (by simp)
  · intro hb
    exact ⟨_, computes_of_ne_zero ho a hb⟩

end

/-- Dividing an integer by another one that is not zero cuts the fraction off: the two operators
give the only quotient and the only remainder that belong together, and the quotient is rounded
toward zero. They have values for the same divisors, and both stop at zero. -/
theorem truncates_or_stops (a b : Int) :
    (b ≠ 0 → ∃ q r, Computes .divide a b (.int q) ∧ Computes .remainder a b (.int r) ∧
      IsTruncatedDivision a b q r ∧ q = towardZero (a / b) ∧ |q * b| ≤ |a| ∧
      ∀ q' r', IsTruncatedDivision a b q' r' → q' = q ∧ r' = r) ∧
    ((∃ v, Computes .divide a b v) ↔ b ≠ 0) ∧
    ((∃ v, Computes .remainder a b v) ↔ b ≠ 0) ∧
    StopsAtZero .divide a ∧ StopsAtZero .remainder a := by
  refine ⟨fun hb => ?_, exists_computes_iff rfl a b, exists_computes_iff rfl a b,
    stopsAtZero rfl a, stopsAtZero rfl a⟩
  have hdivision := ArithmeticOperator.isTruncatedDivision a hb
  refine ⟨_, _, computes_of_ne_zero rfl a hb, computes_of_ne_zero rfl a hb, hdivision,
    hdivision.quotient_eq, hdivision.abs_mul_le, ?_⟩
  intro q' r' h'
  exact hdivision.unique h'

/-- The script that divides seven by zero. -/
def sevenByZero : Program where
  file := "/w/scripts/main.custom.kts"
  annotations := []
  statements :=
    [.expression (.binary (.arithmetic .remainder) (.literal (.int 7) ⟨⟨1, 1⟩, ⟨1, 2⟩⟩)
      (.literal (.int 0) ⟨⟨1, 5⟩, ⟨1, 6⟩⟩) ⟨⟨1, 1⟩, ⟨1, 6⟩⟩) ⟨⟨1, 1⟩, ⟨1, 6⟩⟩]

/-- The fraction of a negative dividend is cut off and not rounded down, and a root that divides by
zero is reported at the place where it does so. -/
theorem truncates_or_stops_alone :
    ((2 : Int) ≠ 0 ∧ Computes .divide (-7) 2 (.int (-3)) ∧ Computes .remainder (-7) 2 (.int (-1))) ∧
    ∃ e, (evaluate (alone "7 % 0")).outcome = .ok e ∧ e.success = false ∧
      e.diagnostics = [⟨.error, "Main: Division by zero",
        some ⟨"/w/scripts/main.custom.kts", 1, 1, 1, 6⟩⟩] := by
  have htwo : (2 : Int) ≠ 0 := by decide
  constructor
  · obtain ⟨q, r, hq, hr, -, -, -, hunique⟩ := (truncates_or_stops (-7) 2).1 htwo
    obtain ⟨rfl, rfl⟩ := hunique (-3) (-1) ⟨by decide, by decide, by decide⟩
    exact ⟨htwo, hq, hr⟩
  · -- The root is a single statement, and the evaluation arrives at it.
    have hparse : parse (alone "7 % 0").root.path.toString (alone "7 % 0").root.text =
        .ok sevenByZero := by
      with_unfolding_all rfl
    have hnames : ((alone "7 % 0").units.map (·.name)).Nodup := by decide
    have hstarts := exists_starts_of_imports_eq_nil rfl hparse
    obtain ⟨q, hq⟩ := exists_perform_start (hstarts.new hnames)
    have hperformed := performAll_cons_of_ok hq []
    rw [← performAll_append_of_ok hstarts.performed] at hperformed
    have harrives := ArrivesAt.mk hstarts.scripts ⟨[], [], rfl, hperformed⟩
    obtain ⟨-, -, -, -, hstops⟩ := truncates_or_stops 7 0
    obtain ⟨e, he⟩ := hstops.evaluation _ _ _ _ _ _ _ _ _ hnames harrives (.whole _) rfl rfl
    refine ⟨e, he.outcome, he.success, ?_⟩
    obtain ⟨-, rfl⟩ := perform_start_eq_ok hq
    have hreport : divisionByZero ((alone "7 % 0").root, sevenByZero) ⟨⟨1, 1⟩, ⟨1, 6⟩⟩ =
        ⟨.error, "Main: Division by zero",
          some ⟨"/w/scripts/main.custom.kts", 1, 1, 1, 6⟩⟩ := by decide +kernel
    rw [he.diagnostics, hreport]
    rfl

end Interpreter

end ScriptRunner
