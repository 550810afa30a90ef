/-
PascalSurvey/Bound.lean

Bounds of numbers.  Line numbers and character codes take 32 bits, sizes and counts take 64,
and a number in a configuration file takes 64 of which one is its sign.
-/

namespace PascalSurvey.Bound

/-- Two to the power of 32. -/
def word32 : Nat := 0x100000000

/-- Two to the power of 64. -/
def word64 : Nat := 0x10000000000000000

/-- Two to the power of 63. -/
def signed64 : Nat := 0x8000000000000000

end PascalSurvey.Bound
