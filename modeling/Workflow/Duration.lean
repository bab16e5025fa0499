/-!
# Lengths of time

A length of time is written in the largest unit of which it has at least one, with as many fraction
digits as it needs.
-/

namespace Workflow

/-- A length of time. -/
structure Duration where
  /-- The length in nanoseconds. -/
  nanos : Nat
deriving DecidableEq

namespace Duration

/-- A length in milliseconds. -/
def ofMillis (n : Nat) : Duration :=
  ⟨n * 1000000⟩

/-- A number of units with a fraction over `10 ^ places`, trailing zeros dropped. -/
def inUnits (nanos places : Nat) (unit : String) : String :=
  let whole := nanos / Nat.pow 10 places
  let digits := Nat.toDigits 10 (nanos % Nat.pow 10 places)
  let padded := List.replicate (places - digits.length) '0' ++ digits
  let trimmed := (padded.reverse.dropWhile (· == '0')).reverse
  let fraction := if trimmed.isEmpty then "" else "." ++ String.ofList trimmed
  toString whole ++ fraction ++ unit

/-- The text of a length of time. -/
def print (d : Duration) : String :=
  if 1000000000 ≤ d.nanos then inUnits d.nanos 9 "s"
  else if 1000000 ≤ d.nanos then inUnits d.nanos 6 "ms"
  else if 1000 ≤ d.nanos then inUnits d.nanos 3 "µs"
  else inUnits d.nanos 0 "ns"

end Duration

end Workflow
