import Workflow.Double

/-!
# Digits by scaled bounds

A double lies between two bounds, halfway to its neighbours. Multiplied by a power of ten of about
their size, which is held in sixty-four bits, the bounds agree in their first digits; the digits of
the upper bound are taken until what is left fits between the bounds, and the last one is lowered
towards the value. The bounds are drawn in by one for the rounding of the product, so the digits
read back, and now and then there is one digit more than needed.
-/

namespace Workflow.Double

/-- A number `significand * 2 ^ exponent`. -/
structure Scaled where
  /-- The significand. -/
  significand : Nat
  /-- The exponent of two. -/
  exponent : Int

namespace Scaled

/-- The same number with a significand of sixty-four bits. -/
def normalize (x : Scaled) : Scaled :=
  let shift := 63 - x.significand.log2
  ⟨x.significand * Nat.pow 2 shift, x.exponent - shift⟩

/-- The product, its significand rounded to sixty-four bits with a half going up. -/
def mul (x y : Scaled) : Scaled :=
  ⟨(x.significand * y.significand + signBound) / wordBound, x.exponent + y.exponent + 64⟩

/-- The power of ten with a significand of sixty-four bits. -/
def powerOfTen (e : Int) : Scaled :=
  let r := scaled 1 10 e
  let guess : Int := (r.1.log2 : Int) - r.2.log2 - 63
  let (n, d) := divPow2 r guess
  let exponent := if n < signBound * d then guess - 1 else guess
  let (n, d) := divPow2 r exponent
  ⟨(2 * n + d) / (2 * d), exponent⟩

/-- The power of ten that brings a normalized significand at an exponent near one: a multiple of
eight, counted from `-348`. -/
def powerFor (exponent : Int) : Int :=
  let places := -((61 + exponent) * 30102999566398114).fdiv 100000000000000000
  8 * ((places + 347).fdiv 8 + 1) - 348

end Scaled

/-- Scaled bounds, in units of the last bit of the upper one. -/
structure Bounds where
  /-- The number one. -/
  unit : Nat
  /-- The upper bound. -/
  upper : Nat
  /-- How far the lower bound lies below the upper one. -/
  width : Nat
  /-- How far the value lies below the upper bound. -/
  gap : Nat

namespace Bounds

/-- Lower the last digit while the number stays above the lower bound and comes nearer to the value;
`rest` is how far it lies below the upper bound, `step` what the last digit counts. -/
def lowerLast (width step gap : Nat) : Nat → Nat → Nat → Nat
  | 0, n, _ => n
  | fuel + 1, n, rest =>
    if rest < gap ∧ step ≤ width - rest ∧
        (rest + step < gap ∨ rest + step - gap < gap - rest) then
      lowerLast width step gap fuel (n - 1) (rest + step)
    else n

/-- The digits with the most places cut from the whole part of the upper bound, and how many are
cut. -/
def whole? (b : Bounds) : Nat → Option (Nat × Int)
  | 0 => none
  | cut + 1 =>
    let step := Nat.pow 10 cut * b.unit
    let rest := b.upper % step
    if rest ≤ b.width then
      some (lowerLast b.width step b.gap 10 (b.upper / step) rest, cut)
    else b.whole? cut

/-- The digits with the fewest places behind the point, and minus their count. The last digit is
lowered up to eight places only. -/
def fraction (b : Bounds) : Nat → Nat → Nat × Int
  | 0, places => (b.upper * Nat.pow 10 places / b.unit, -(places : Int))
  | fuel + 1, places =>
    let scale := Nat.pow 10 places
    let width := b.width * scale
    let rest := b.upper * scale % b.unit
    if rest < width then
      let gap := if places < 9 then b.gap * scale else 0
      (lowerLast width b.unit gap 10 (b.upper * scale / b.unit) rest, -(places : Int))
    else b.fraction fuel (places + 1)

/-- Digits as a number and the power of ten that they count. -/
def digits (b : Bounds) : Nat × Int :=
  let places := min (Nat.toDigits 10 (b.upper / b.unit)).length 9
  (b.whole? places).getD (b.fraction 20 1)

end Bounds

/-- The bounds of a finite nonzero magnitude, multiplied by a power of ten, and that power. -/
def boundsOf (magnitude : Nat) : Bounds × Int :=
  let (m, q) := significand magnitude
  let upper := Scaled.normalize ⟨2 * m + 1, q - 1⟩
  let lower : Scaled := if m = leadingBit then ⟨4 * m - 1, q - 2⟩ else ⟨2 * m - 1, q - 1⟩
  let aligned := lower.significand * Nat.pow 2 (lower.exponent - upper.exponent).toNat
  let power := Scaled.powerFor upper.exponent
  let ten := Scaled.powerOfTen power
  let high := upper.mul ten
  let low := (Scaled.mk aligned upper.exponent).mul ten
  let value := (Scaled.normalize ⟨m, q⟩).mul ten
  let top := high.significand - 1
  (⟨Nat.pow 2 (-high.exponent).toNat, top, top - (low.significand + 1),
    top - value.significand⟩, power)

/-- Digits that read back as a finite magnitude. -/
def scaledDecimal (magnitude : Nat) : Decimal :=
  if magnitude = 0 then ⟨['0'], 1⟩
  else
    let (bounds, power) := boundsOf magnitude
    let (n, e) := bounds.digits
    let digits := Nat.toDigits 10 n
    ⟨digits, e - power + digits.length⟩

end Workflow.Double
