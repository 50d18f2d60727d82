import ScriptRunner.Number.Binary64

/-!
# Decimal text of doubles

## Main definitions

* `Decimal` - a whole number of powers of ten.
* `Decimal.shortest` - the fewest digits that read back as a given double, and of those the nearest.
* `DecimalStyle`, `Decimal.text` - where positional notation ends, and the text of a decimal.
* `Decimal.toFloat` - the double nearest to a decimal.

## Design notes

The doubles nearest to real numbers cut the line into intervals. A decimal reads back as a double
when it lies in the double's interval, whose ends belong to it if the significand is even. On the
grid of the decimals with `n` digits only the two neighbours of the double itself have to be
tested: if any point of the grid lies in the interval, one of them does.
-/

namespace ScriptRunner

/-- The number `digits * 10 ^ exponent`. -/
structure Decimal where
  digits : Nat
  exponent : Int
  deriving DecidableEq, Repr

namespace Decimal

/-- Move the trailing zeros of the digits into the exponent. -/
def dropZeros : Nat → Decimal → Decimal
  | 0, d => d
  | fuel + 1, d =>
    if d.digits ≠ 0 ∧ d.digits % 10 = 0 then dropZeros fuel ⟨d.digits / 10, d.exponent + 1⟩ else d

/-- A positive number between two limits, all three over one denominator, with the rule whether the
limits themselves belong to the interval. -/
structure Interval where
  low : Nat
  value : Nat
  high : Nat
  denominator : Nat
  closed : Bool

namespace Interval

/-- The interval of the reals whose nearest double is `significand * 2 ^ exponent`. Below a power of
two the neighbour is only half as far away. -/
def ofDouble (significand : Nat) (exponent : Int) : Interval :=
  let below := if significand = twoPow 52 ∧ exponent > Binary64.minExponent then 1 else 2
  let (scale, denominator) := Binary64.scaleDown 1 1 (2 - exponent)
  { low := (4 * significand - below) * scale
    value := 4 * significand * scale
    high := (4 * significand + 2) * scale
    denominator := denominator
    closed := significand % 2 == 0 }

/-- The interval with every number divided by `10 ^ power`. -/
def scaleTen (i : Interval) (power : Int) : Interval :=
  if 0 ≤ power then { i with denominator := i.denominator * tenPow power.toNat }
  else
    let factor := tenPow (-power).toNat
    { i with low := i.low * factor, value := i.value * factor, high := i.high * factor }

def holds (i : Interval) (n : Nat) : Bool :=
  let scaled := n * i.denominator
  (i.low < scaled && scaled < i.high) || (i.closed && (scaled == i.low || scaled == i.high))

/-- The whole number of the interval that is nearest to its value, among the two neighbours of the
value; the even one if both are equally near. -/
def nearest? (i : Interval) : Option Nat :=
  let down := i.value / i.denominator
  let up := down + 1
  match i.holds down, i.holds up with
  | true, true => some (divRoundEven i.value i.denominator)
  | true, false => some down
  | false, true => some up
  | false, false => none

/-- The power of ten of the first digit of the value. -/
def leadingPower (i : Interval) : Int :=
  let guess : Int := ((i.value.log2 : Int) - i.denominator.log2 - 1) * 30103 / 100000 - 1
  let reaches (power : Int) : Bool :=
    let scaled := i.scaleTen power
    scaled.denominator ≤ scaled.value
  if reaches (guess + 2) then guess + 2 else if reaches (guess + 1) then guess + 1 else guess

/-- The first hit on the grids of `count`, `count + 1`, ... digits, `fuel` of them. -/
def firstHit (i : Interval) (leading : Int) : Nat → Nat → Option Decimal
  | 0, _ => none
  | fuel + 1, count =>
    let power := leading + 1 - count
    match (i.scaleTen power).nearest? with
    | some digits => some ⟨digits, power⟩
    | none => firstHit i leading fuel (count + 1)

end Interval

/-- The decimal with the fewest digits that reads back as `significand * 2 ^ exponent`; seventeen
digits are enough for every double. -/
def shortest (significand : Nat) (exponent : Int) : Decimal :=
  let interval := Interval.ofDouble significand exponent
  let leading := interval.leadingPower
  match interval.firstHit leading 17 1 with
  | some d => dropZeros 20 d
  | none => ⟨significand, exponent⟩

end Decimal

/-- How decimals are written: positional from `10 ^ positionalFrom` up to but not including
`10 ^ positionalBelow`, else with an exponent of at least `exponentDigits` digits. -/
structure DecimalStyle where
  positionalFrom : Int
  positionalBelow : Int
  exponentDigits : Nat
  deriving DecidableEq, Repr

namespace Decimal

def digitsText (n : Nat) : List Char :=
  Nat.toDigits 10 n

/-- Digits with zeros in front up to a width. -/
def padLeft (width : Nat) (cs : List Char) : List Char :=
  List.replicate (width - cs.length) '0' ++ cs

/-- The exponent of scientific notation: its sign, then its digits. -/
def exponentText (style : DecimalStyle) (power : Int) : List Char :=
  (if power < 0 then '-' else '+') :: padLeft style.exponentDigits (digitsText power.natAbs)

/-- The text of a positive decimal whose last digit is not zero. Positional text always has a
fraction, `.0` if need be; scientific text has one only for a second digit. -/
def text (style : DecimalStyle) (d : Decimal) : List Char :=
  let cs := digitsText d.digits
  let leading := d.exponent + cs.length - 1
  if style.positionalFrom ≤ leading ∧ leading < style.positionalBelow then
    if 0 ≤ d.exponent then cs ++ List.replicate d.exponent.toNat '0' ++ ['.', '0']
    else if 0 ≤ leading then
      cs.take (leading.toNat + 1) ++ '.' :: cs.drop (leading.toNat + 1)
    else '0' :: '.' :: List.replicate (-leading - 1).toNat '0' ++ cs
  else
    match cs with
    | first :: second :: rest =>
      first :: '.' :: second :: rest ++ 'e' :: exponentText style leading
    | _ => cs ++ 'e' :: exponentText style leading

/-- The double nearest to a decimal. Far outside the range of doubles the answer is known without
the power of ten: no double reaches `10 ^ 310`, and half the least one exceeds `10 ^ -330`. -/
def toFloat (d : Decimal) : Float :=
  let leading := d.exponent + (digitsText d.digits).length
  if d.digits = 0 then Binary64.ofMagnitude false 0
  else if leading > 320 then Binary64.infinity false
  else if leading < -340 then Binary64.ofMagnitude false 0
  else if 0 ≤ d.exponent then Binary64.ofRatio false (d.digits * tenPow d.exponent.toNat) 1
  else Binary64.ofRatio false d.digits (tenPow (-d.exponent).toNat)

end Decimal

/-- The text of a double in a style: a sign for the negative ones, zero included, and words for what
is not finite. -/
def doubleText (style : DecimalStyle) (x : Float) : String :=
  match Binary64.view x with
  | .nan => "nan"
  | .infinite negative => if negative then "-inf" else "inf"
  | .finite negative significand exponent =>
    let magnitude :=
      if significand = 0 then ['0', '.', '0']
      else (Decimal.shortest significand exponent).text style
    String.ofList (if negative then '-' :: magnitude else magnitude)

end ScriptRunner
