import Workflow.Word

/-!
# Double-precision numbers as words

A double is its 64-bit word. Decimal text becomes the nearest double, ties to the even word, and a
double becomes the shortest run of digits that reads back, the nearest such run if there are two.
Both directions are exact integer arithmetic.
-/

namespace Workflow

/-- A double-precision number, held as its word. -/
structure Double where
  /-- Sign bit, eleven exponent bits and fifty-two fraction bits. -/
  bits : UInt64
deriving DecidableEq, Repr

namespace Double

/-- The word read as a sign and a magnitude below `2 ^ 63`. -/
def magnitude (d : Double) : Nat :=
  d.bits.toNat % signBound

/-- Whether the sign bit is set. -/
def isNegative (d : Double) : Bool :=
  decide (signBound ≤ d.bits.toNat)

/-- The weight of the bit that significands of full width have in front of their fraction. -/
def leadingBit : Nat := 0x10000000000000

/-- The magnitude of both infinities; larger magnitudes are not numbers. -/
def infinityMagnitude : Nat :=
  2047 * leadingBit

/-- Neither infinite nor undefined. -/
def isFinite (d : Double) : Bool :=
  decide (d.magnitude < infinityMagnitude)

/-- A word from its sign and magnitude. -/
def ofMagnitude (negative : Bool) (magnitude : Nat) : Double :=
  ⟨UInt64.ofNat (if negative then signBound + magnitude else magnitude)⟩

/-- The place of a word in the total order: negative words run backwards below the positive ones. -/
def orderKey (d : Double) : Int :=
  if d.isNegative then -(d.magnitude : Int) - 1 else d.magnitude

/-- The significand `m` and exponent `q` of a finite magnitude, whose value is `m * 2 ^ q`. -/
def significand (magnitude : Nat) : Nat × Int :=
  let exponent : Nat := magnitude / leadingBit
  let fraction := magnitude % leadingBit
  if exponent = 0 then (fraction, -1074) else (fraction + leadingBit, (exponent : Int) - 1075)

/-- A nonnegative fraction, numerator first. -/
abbrev Ratio := Nat × Nat

/-- The fraction `n * base ^ e`. -/
def scaled (n base : Nat) (e : Int) : Ratio :=
  if 0 ≤ e then (n * Nat.pow base e.toNat, 1) else (n, Nat.pow base (-e).toNat)

/-- The quotient of two fractions' terms rounded to the nearest integer, a half to the even one. -/
def roundHalfEven (r : Ratio) : Nat :=
  let q := r.1 / r.2
  let rest := 2 * (r.1 % r.2)
  if rest < r.2 then q else if r.2 < rest then q + 1 else if q % 2 = 0 then q else q + 1

/-- Divide a fraction by a power of two of either sign. -/
def divPow2 (r : Ratio) (e : Int) : Ratio :=
  if 0 ≤ e then (r.1, r.2 * Nat.pow 2 e.toNat) else (r.1 * Nat.pow 2 (-e).toNat, r.2)

/-- The magnitude nearest to a positive fraction. The exponent is chosen so that the significand
has fifty-three bits, or fewer at the bottom of the range. -/
def nearestMagnitude (r : Ratio) : Nat :=
  let guess : Int := (r.1.log2 : Int) - r.2.log2 - 52
  let (n, d) := divPow2 r guess
  let exact := if n < leadingBit * d then guess - 1 else guess
  let q := max exact (-1074)
  let m := roundHalfEven (divPow2 r q)
  let word := if m < leadingBit then m else (q + 1074).toNat * leadingBit + m
  min word infinityMagnitude

/-- The double nearest to `± digits * 10 ^ exponent`. Exponents far outside the range give zero or
infinity at once. -/
def ofDecimal (negative : Bool) (digits : Nat) (exponent : Int) : Double :=
  let places : Int := (Nat.toDigits 10 digits).length + exponent
  ofMagnitude negative <|
    if digits = 0 ∨ places < -400 then 0
    else if 400 < places then infinityMagnitude
    else nearestMagnitude (scaled digits 10 exponent)

/-- The reals that round to a finite nonzero magnitude: lower end, value, upper end, over one
denominator, and whether the ends themselves round to it. -/
structure Interval where
  /-- Numerator of the lower end. -/
  low : Nat
  /-- Numerator of the value. -/
  value : Nat
  /-- Numerator of the upper end. -/
  high : Nat
  /-- The common denominator. -/
  denominator : Nat
  /-- Whether the ends belong to the interval. -/
  closed : Bool

/-- The rounding interval of a finite nonzero magnitude. Below a power of two the neighbour is
nearer, except at the bottom of the range. -/
def Interval.ofMagnitude (magnitude : Nat) : Interval :=
  let (m, q) := significand magnitude
  let lower := if m = leadingBit ∧ 2 * leadingBit ≤ magnitude then 4 * m - 1 else 4 * m - 2
  let unit := scaled 1 2 (q - 2)
  ⟨lower * unit.1, 4 * m * unit.1, (4 * m + 2) * unit.1, unit.2, m % 2 = 0⟩

/-- Whether the fraction `n / d` rounds to the interval's value. -/
def Interval.contains (i : Interval) (r : Ratio) : Bool :=
  let n := r.1 * i.denominator
  if i.closed then decide (i.low * r.2 ≤ n ∧ n ≤ i.high * r.2)
  else decide (i.low * r.2 < n ∧ n < i.high * r.2)

/-- The point of the grid of multiples of `10 ^ e` that lies in the interval nearest to its value;
of two equally near ones the upper. -/
def Interval.onGrid? (i : Interval) (e : Int) : Option Nat :=
  let step := scaled 1 10 e
  let below := i.value * step.2 / (i.denominator * step.1)
  let down : Ratio := (below * step.1, step.2)
  let up : Ratio := ((below + 1) * step.1, step.2)
  let nearDown : Bool :=
    2 * i.value * step.2 < (2 * below + 1) * step.1 * i.denominator
  match i.contains down && decide (0 < below), i.contains up with
  | true, true => some (if nearDown then below else below + 1)
  | true, false => some below
  | false, true => some (below + 1)
  | false, false => none

/-- The number of digits before the point of a positive fraction: the least `p` with the fraction
below `10 ^ p`, found from above. -/
def pointOf (r : Ratio) : Nat → Int → Int
  | 0, p => p
  | fuel + 1, p =>
    let bound := scaled 1 10 (p - 1)
    if r.1 * bound.2 < bound.1 * r.2 then pointOf r fuel (p - 1) else p

/-- Digits without trailing zeros, and the place of the decimal point counted from their front. -/
structure Decimal where
  /-- The digits as characters. -/
  digits : List Char
  /-- The value is `0.digits * 10 ^ point`. -/
  point : Int

/-- The first grid, from one digit to seventeen, that has a point in the interval. -/
def Interval.shortest (i : Interval) (point : Int) : Nat → Nat → Nat × Int
  | 0, _ => (0, 0)
  | fuel + 1, digits =>
    let e := point - digits
    match i.onGrid? e with
    | some n => (n, e)
    | none => i.shortest point fuel (digits + 1)

/-- The shortest digits that read back as a finite magnitude. -/
def shortestDecimal (magnitude : Nat) : Decimal :=
  if magnitude = 0 then ⟨['0'], 1⟩
  else
    let i := Interval.ofMagnitude magnitude
    let point := pointOf (i.value, i.denominator) 640 310
    let (n, e) := i.shortest point 18 1
    let digits := Nat.toDigits 10 n
    let trimmed := (digits.reverse.dropWhile (· == '0')).reverse
    ⟨trimmed, e + digits.length⟩

end Double

end Workflow
