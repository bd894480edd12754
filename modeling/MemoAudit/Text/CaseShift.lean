/-!
# Runs of letters with a common distance to their other case

Most letters have their other case at a fixed distance, and such letters come in runs that are
contiguous or alternate with their counterparts.  The case mappings of Unicode are kept as lists of
such runs.
-/

namespace MemoAudit.Text

/-- A run of letters with a common distance to their counterparts: the first, the last, the gap
between neighbours, and the distance. -/
structure CaseShift where
  first : Nat
  last : Nat
  gap : Nat
  distance : Int

namespace CaseShift

/-- Whether the run holds the code point. -/
def covers (run : CaseShift) (code : Nat) : Bool :=
  run.first ≤ code && code ≤ run.last && (code - run.first) % run.gap == 0

/-- The counterpart of a character, if one of the runs holds it. -/
def find? (runs : List CaseShift) (c : Char) : Option Char :=
  (runs.find? (·.covers c.toNat)).map fun run => Char.ofNat ((c.toNat : Int) + run.distance).toNat

end CaseShift

end MemoAudit.Text
