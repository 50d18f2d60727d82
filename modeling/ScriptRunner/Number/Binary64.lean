import ScriptRunner.Number.Power

/-!
# Exact views of binary floating-point numbers

A double is a sign, an integer and a power of two. Everything that has to be exact about doubles -
rounding a quotient, comparing with an integer, the remainder of a division - is done on that view
with integers of any size.

## Main definitions

* `divRoundEven` - the integer nearest to a quotient; a half goes to the even neighbour.
* `Binary64.View`, `Binary64.view` - a double taken apart.
* `Binary64.ofRatio` - the double nearest to a quotient.
* `Binary64.ofInt?` - the double nearest to an integer, if one is finite.
* `Binary64.compareInt` - the exact order of an integer and a double.
* `Binary64.remainder?` - the remainder that keeps the sign of the dividend.
-/

namespace ScriptRunner

/-- The integer nearest to `num / den`; a half goes to the even neighbour. -/
def divRoundEven (num den : Nat) : Nat :=
  let quotient := num / den
  let rest := num % den
  if 2 * rest < den then quotient
  else if den < 2 * rest then quotient + 1
  else quotient + quotient % 2

/-- The rounded quotient is one of the two neighbours of the exact one. -/
theorem divRoundEven_bounds (num den : Nat) :
    num / den ≤ divRoundEven num den ∧ divRoundEven num den ≤ num / den + 1 := by
  unfold divRoundEven
  dsimp only
  split
  · omega
  · split <;> omega

namespace Binary64

/-- A double taken apart: the finite ones are `significand * 2 ^ exponent` with a sign. -/
inductive View where
  | nan
  | infinite (negative : Bool)
  | finite (negative : Bool) (significand : Nat) (exponent : Int)
  deriving DecidableEq, Repr

def minExponent : Int := -1074

def maxExponent : Int := 971

def view (x : Float) : View :=
  let bits : Nat := x.toBits.toNat
  let negative := bits ≥ twoPow 63
  let biased : Nat := bits / twoPow 52 % twoPow 11
  let fraction : Nat := bits % twoPow 52
  if biased = twoPow 11 - 1 then
    if fraction = 0 then .infinite negative else .nan
  else if biased = 0 then .finite negative fraction minExponent
  else .finite negative (twoPow 52 + fraction) ((biased : Int) - 1075)

/-- The double with the given sign bit and remaining bits. -/
def ofMagnitude (negative : Bool) (bits : Nat) : Float :=
  Float.ofBits (UInt64.ofNat (if negative then twoPow 63 + bits else bits))

def infinity (negative : Bool) : Float :=
  ofMagnitude negative ((twoPow 11 - 1) * twoPow 52)

def notANumber : Float :=
  ofMagnitude false ((twoPow 11 - 1) * twoPow 52 + twoPow 51)

/-- Put a double together from a significand below `2 ^ 53`. The significand is below `2 ^ 52` only
at the least exponent, and an exponent above the largest gives infinity. -/
def ofParts (negative : Bool) (significand : Nat) (exponent : Int) : Float :=
  if exponent > maxExponent then infinity negative
  else if significand < twoPow 52 then ofMagnitude negative significand
  else ofMagnitude negative ((exponent + 1074).toNat * twoPow 52 + significand)

/-- The quotient `num / (den * 2 ^ exponent)` as numerator and denominator. -/
def scaleDown (num den : Nat) (exponent : Int) : Nat × Nat :=
  if 0 ≤ exponent then (num, den * twoPow exponent.toNat)
  else (num * twoPow (-exponent).toNat, den)

/-- The exponent at which a positive quotient has a significand of 53 bits, but no less than the
least exponent of a double. -/
def exponentOf (num den : Nat) : Int :=
  let guess : Int := (num.log2 : Int) - den.log2 - 53
  let (n, d) := scaleDown num den guess
  let exact := if n < d * twoPow 53 then guess else guess + 1
  max exact minExponent

/-- The double nearest to `num / den`; a half goes to the even significand, and what is too large
becomes infinite. -/
def ofRatio (negative : Bool) (num den : Nat) : Float :=
  if num = 0 then ofMagnitude negative 0
  else
    let exponent := exponentOf num den
    let (n, d) := scaleDown num den exponent
    let significand := divRoundEven n d
    -- Rounding up may carry into a further bit.
    if significand = twoPow 53 then ofParts negative (twoPow 52) (exponent + 1)
    else ofParts negative significand exponent

def isFinite (x : Float) : Bool :=
  match view x with
  | .finite .. => true
  | _ => false

/-- The double nearest to an integer, or nothing when the integer is too large for any. -/
def ofInt? (n : Int) : Option Float :=
  let x := ofRatio (n < 0) n.natAbs 1
  if isFinite x then some x else none

def signed (negative : Bool) (n : Nat) : Int :=
  if negative then -n else n

/-- The exact order of an integer and a double; there is none if the double is no number. -/
def compareInt (n : Int) (x : Float) : Option Ordering :=
  match view x with
  | .nan => none
  | .infinite negative => some (if negative then .gt else .lt)
  | .finite negative significand exponent =>
    if 0 ≤ exponent then
      some (compare n (signed negative (significand * twoPow exponent.toNat)))
    else
      some (compare (n * twoPow (-exponent).toNat) (signed negative significand))

/-- The remainder of `x` by `y` with the sign of `x`, exact; there is none if `x` is infinite or `y`
is zero. -/
def remainder? (x y : Float) : Option Float :=
  match view x, view y with
  | .nan, _ => some notANumber
  | _, .nan => some notANumber
  | .infinite _, _ => none
  | .finite .., .infinite _ => some x
  | .finite negative mx ex, .finite _ my ey =>
    if my = 0 then none
    else
      let low := min ex ey
      let rest := (mx * twoPow (ex - low).toNat) % (my * twoPow (ey - low).toNat)
      let (n, d) := scaleDown rest 1 (-low)
      some (ofRatio negative n d)

end Binary64

end ScriptRunner
