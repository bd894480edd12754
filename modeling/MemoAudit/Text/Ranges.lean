/-!
# Sets of characters given by ranges

Properties of characters that a standard lays down by enumeration are kept as lists of closed ranges
of code points.  The lists are short and looked up rarely, so membership is a plain search.
-/

namespace MemoAudit.Text

/-- A closed range of code points. -/
abbrev CodeRange := Nat × Nat

/-- Whether the code point of `c` lies in one of the ranges. -/
def inRanges (ranges : List CodeRange) (c : Char) : Bool :=
  ranges.any fun (low, high) => low ≤ c.toNat && c.toNat ≤ high

end MemoAudit.Text
