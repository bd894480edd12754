import MemoAudit.Path
import MemoAudit.Text.Uppercase

/-!
# Findings

A finding is one complaint of a rule about one place of a file.  Places are counted from one, which
`Ordinal` keeps as an invariant; how raw numbers become ordinals, or are refused, is the subject of
`Finding/Validation`.

Findings are listed by path, line and column (`Finding.sort`), and findings at the same place keep
the order in which they were made.
-/

namespace MemoAudit

/-- A number of a line or column, counted from one. -/
structure Ordinal where
  val : Nat
  pos : 1 ≤ val
  deriving DecidableEq, Repr

instance : Inhabited Ordinal := ⟨⟨1, Nat.le_refl 1⟩⟩

/-- The ordinal of a number that is at least one. -/
def Ordinal.ofInt? (n : Int) : Option Ordinal :=
  if h : 1 ≤ n then some ⟨n.toNat, by omega⟩ else none

/-- A place in a file, with the source that it covers. -/
structure Location where
  path : Path
  line : Ordinal
  column : Ordinal
  endLine : Option Ordinal
  endColumn : Option Ordinal
  snippet : Option String
  deriving DecidableEq, Repr, Inhabited

structure Finding where
  ruleId : String
  message : String
  location : Location
  severity : String
  deriving DecidableEq, Repr, Inhabited

/-- The severity of a finding that names none. -/
def defaultSeverity : String := "convention"

namespace Finding

/-- The text of the path that a finding is about. -/
def pathText (finding : Finding) : String := finding.location.path.text

/-- One line about a finding, as compilers write them. -/
def lineText (finding : Finding) : String :=
  s!"{finding.pathText}:{finding.location.line.val}:{finding.location.column.val}: " ++
    s!"{Text.upper finding.severity} [{finding.ruleId}] {finding.message}"

/-! ## Order -/

/-- What findings are listed by: the text of the path, the line and the column. -/
structure SortKey where
  path : String
  line : Nat
  column : Nat
  deriving DecidableEq, Repr

/-- The lexicographic order of sort keys; texts are compared by code points. -/
def SortKey.le (a b : SortKey) : Bool :=
  a.path < b.path ||
    (a.path == b.path && (a.line < b.line || (a.line == b.line && a.column ≤ b.column)))

def sortKey (finding : Finding) : SortKey :=
  ⟨finding.pathText, finding.location.line.val, finding.location.column.val⟩

/-- Whether a finding may be listed before another. -/
def le (a b : Finding) : Bool := a.sortKey.le b.sortKey

/-- Findings in the order of listing; those with the same key keep their order. -/
def sort (findings : List Finding) : List Finding := findings.mergeSort le

end Finding

end MemoAudit
