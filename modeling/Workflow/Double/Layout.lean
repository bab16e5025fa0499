import Workflow.Double

/-!
# Laying out decimals

Digits and a point are written in full while the point stays near the digits, and with an exponent
otherwise. A whole number keeps one zero behind its point.
-/

namespace Workflow

/-- How a decimal is laid out around its point. -/
structure DecimalLayout where
  /-- Points from one to this many digits behind the front are written in full. -/
  plainUpTo : Int
  /-- Points in front of the digits are written in full down to this one, exclusive. -/
  plainAbove : Int

namespace DecimalLayout

/-- The text of nonempty digits with the point at a place: `0.digits * 10 ^ point`. -/
def write (layout : DecimalLayout) (d : Double.Decimal) : List Char :=
  let count : Int := d.digits.length
  if 0 < d.point ∧ d.point ≤ layout.plainUpTo then
    if count ≤ d.point then
      d.digits ++ List.replicate (d.point - count).toNat '0' ++ ['.', '0']
    else
      d.digits.take d.point.toNat ++ '.' :: d.digits.drop d.point.toNat
  else if layout.plainAbove < d.point ∧ d.point ≤ 0 then
    '0' :: '.' :: List.replicate (-d.point).toNat '0' ++ d.digits
  else
    let exponent := 'e' :: (toString (d.point - 1)).toList
    match d.digits with
    | [] => exponent
    | [c] => c :: exponent
    | c :: rest => c :: '.' :: rest ++ exponent

end DecimalLayout

end Workflow
