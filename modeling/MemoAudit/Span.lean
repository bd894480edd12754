import MemoAudit.Text.Utf8

/-!
# Spans

A span is a stretch of a source: the offsets in bytes between which it lies, and the line and
column, counted from one, where it starts and ends.  Spans come from outside with the tree, so
nothing ties the two descriptions to each other or to the source; in particular the numbers may be
negative.
-/

namespace MemoAudit

/-- A line and a column, counted from one. -/
structure Position where
  line : Int
  column : Int
  deriving DecidableEq, Repr, Inhabited

namespace Position

/-- The order of reading: by line, then by column. -/
def le (a b : Position) : Prop := a.line < b.line ∨ (a.line = b.line ∧ a.column ≤ b.column)

instance : LE Position := ⟨le⟩

instance (a b : Position) : Decidable (a ≤ b) :=
  inferInstanceAs (Decidable (_ ∨ _))

end Position

structure Span where
  startByte : Int
  endByte : Int
  first : Position
  last : Position
  deriving DecidableEq, Repr, Inhabited

namespace Span

/-- The stretch from the start of one span to the end of another. -/
def through (a b : Span) : Span :=
  { startByte := a.startByte, endByte := b.endByte, first := a.first, last := b.last }

/-- The text that a span covers in a source. -/
def text (source : Bytes) (span : Span) : String :=
  Text.Utf8.decodeLossy (source.slice span.startByte span.endByte)

end Span

end MemoAudit
