/-!
# Bounds of machine words

Numbers in records and on the wire have fixed widths. These are the least numbers that no longer
fit.
-/

namespace Workflow

/-- The bound of numbers of thirty-two bits. -/
abbrev halfWordBound : Nat := 0x100000000

/-- The bound of the magnitude of numbers of sixty-four bits with a sign. -/
abbrev signBound : Nat := 0x8000000000000000

/-- The bound of numbers of sixty-four bits. -/
abbrev wordBound : Nat := 0x10000000000000000

/-- Whether an integer fits sixty-four bits with a sign. -/
def fitsSigned (n : Int) : Bool :=
  decide (-signBound ≤ n ∧ n < signBound)

end Workflow
