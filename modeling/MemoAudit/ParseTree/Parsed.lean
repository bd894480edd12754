import MemoAudit.ParseTree.Basic

/-!
# Results of parsing

The grammar itself is not part of this library.  A parser is any function from bytes to a tree with
a note of whether there were syntax errors; a source that a parser knows nothing about parses as a
program without statements.
-/

namespace MemoAudit

/-- A parse tree, and whether it has errors in it. -/
structure Parsed where
  root : ParseTree
  hasErrors : Bool
  deriving Repr, Inhabited

/-- A function that parses sources. -/
abbrev Parser := Bytes → Parsed

namespace Parsed

def newline : UInt8 := 0x0A

/-- The point after the last byte of a source. -/
def endPoint (source : Bytes) : Point :=
  { byte := source.length
    row := source.count newline
    column := (source.reverse.takeWhile (· != newline)).length }

/-- The tree of a source that has nothing in it. -/
def blank (source : Bytes) : Parsed where
  root := .node { kind := "program", start := ⟨0, 0, 0⟩, stop := endPoint source } []
  hasErrors := false

end Parsed

end MemoAudit
