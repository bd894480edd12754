import MemoAudit.Finding.Basic
import MemoAudit.Number.Numeral
import MemoAudit.Span

/-!
# Checking raw findings

The fields of a location or a finding may be given as values of any kind.  Checking a record goes
through its fields in order and reports every fault, not only the first: `Checked` is the
applicative that runs all checks and keeps all faults.

Numbers are read generously (`Raw.integer?`): truth values count as one and zero, a number with a
fraction must be whole, and a text may spell a number.  They must then be at least one.
-/

namespace MemoAudit

/-- A value of unknown kind, as far as a field can tell. -/
inductive Raw where
  | null
  | truth (value : Bool)
  | integer (value : Int)
  /-- A number that was written with a point or an exponent. -/
  | floating (value : Binary64)
  | text (value : String)
  /-- A list or a record. -/
  | composite
  deriving DecidableEq, Repr, Inhabited

/-- Why a field is refused. -/
inductive FieldCause where
  | missing
  | notText
  | notPath
  | notInteger
  | unreadableInteger
  | fractional
  | exceedsSize
  | notFinite
  | belowOne
  | notLocation
  deriving DecidableEq, Repr, Inhabited

/-- What is said about a refused field. -/
def FieldCause.message : FieldCause → String
  | .missing => "Field required"
  | .notText => "Input should be a valid string"
  | .notPath => "Input is not a valid path for <class 'pathlib.Path'>"
  | .notInteger => "Input should be a valid integer"
  | .unreadableInteger => "Input should be a valid integer, unable to parse string as an integer"
  | .fractional => "Input should be a valid integer, got a number with a fractional part"
  | .exceedsSize => "Unable to parse input string as an integer, exceeded maximum size"
  | .notFinite => "Input should be a finite number"
  | .belowOne => "Input should be greater than or equal to 1"
  | .notLocation => "Input should be a valid dictionary or instance of Location"

structure FieldFault where
  field : String
  cause : FieldCause
  deriving DecidableEq, Repr, Inhabited

/-- A checked value, or every fault that was found. -/
inductive Checked (α : Type) where
  | good (value : α)
  | bad (faults : List FieldFault)
  deriving Repr, Inhabited

namespace Checked

variable {α β : Type}

/-- The faults of a check; none if it passed. -/
def faults : Checked α → List FieldFault
  | .good _ => []
  | .bad faults => faults

instance : Functor Checked where
  map f
    | .good value => .good (f value)
    | .bad faults => .bad faults

instance : Applicative Checked where
  pure := .good
  seq f a :=
    match f, a () with
    | .good f, .good a => .good (f a)
    | .good _, .bad faults => .bad faults
    | .bad faults, .good _ => .bad faults
    | .bad faults, .bad more => .bad (faults ++ more)

/-- The check of one field. -/
def ofField (field : String) : Except FieldCause α → Checked α
  | .ok value => .good value
  | .error cause => .bad [⟨field, cause⟩]

def toExcept : Checked α → Except (List FieldFault) α
  | .good value => .ok value
  | .bad faults => .error faults

end Checked

/-! ## Reading single values -/

namespace Raw

/-- The value that a written number with a point or an exponent stands for, or a word for a number
that is not finite. -/
def ofNumeral (s : String) : Raw :=
  match Numeral.decimal? s.toList with
  | some decimal => .floating decimal.toBinary64
  | none => .floating .notFinite

/-- The whole number that a number in the double format is; it has to fit a signed word of
sixty-four bits, of which the least is left out. -/
def wholeOf : Binary64 → Except FieldCause Int
  | .notFinite => .error .notFinite
  | x@(.finite ..) =>
    match x.toInt? with
    | none => .error .fractional
    | some n => if n.natAbs < 0x8000000000000000 then .ok n else .error .exceedsSize

/-- The whole number that a value stands for. -/
def integer? : Raw → Except FieldCause Int
  | .integer n => .ok n
  | .truth b => .ok (if b then 1 else 0)
  | .floating x => wholeOf x
  | .text s =>
    (Numeral.whole s).mapError fun
      | .unreadable => .unreadableInteger
      | .tooLong => .exceedsSize
  | .null | .composite => .error .notInteger

/-- The ordinal of a whole number. -/
def ordinalOf (n : Int) : Except FieldCause Ordinal :=
  match Ordinal.ofInt? n with
  | some ordinal => .ok ordinal
  | none => .error .belowOne

def ordinal (raw : Raw) : Except FieldCause Ordinal := raw.integer? >>= ordinalOf

def string : Raw → Except FieldCause String
  | .text s => .ok s
  | _ => .error .notText

def path : Raw → Except FieldCause Path
  | .text s => .ok (Path.ofString s)
  | _ => .error .notPath

variable {α : Type}

/-- A field that has to be there. -/
def required (read : Raw → Except FieldCause α) : Option Raw → Except FieldCause α
  | none => .error .missing
  | some raw => read raw

/-- A field that may be left out or left empty. -/
def nullable (read : Raw → Except FieldCause α) : Option Raw → Except FieldCause (Option α)
  | none | some .null => .ok none
  | some raw => some <$> read raw

end Raw

/-! ## Records -/

/-- The fields of a location before any check; absent fields are `none`. -/
structure RawLocation where
  path : Option Raw
  line : Option Raw
  column : Option Raw
  endLine : Option Raw
  endColumn : Option Raw
  snippet : Option Raw
  deriving Repr, Inhabited

namespace Location

/-- Checks every field of a location. -/
def ofRaw (raw : RawLocation) : Checked Location :=
  Location.mk
    <$> .ofField "path" (Raw.required Raw.path raw.path)
    <*> .ofField "line" (Raw.required Raw.ordinal raw.line)
    <*> .ofField "column" (Raw.required Raw.ordinal raw.column)
    <*> .ofField "end_line" (Raw.nullable Raw.ordinal raw.endLine)
    <*> .ofField "end_column" (Raw.nullable Raw.ordinal raw.endColumn)
    <*> .ofField "snippet" (Raw.nullable Raw.string raw.snippet)

/-- The location of a span of a file, which quotes the source that the span covers. -/
def ofSpan (path : Path) (source : Bytes) (span : Span) : Checked Location :=
  (fun line column endLine endColumn =>
      { path, line, column, endLine := some endLine, endColumn := some endColumn
        snippet := some (span.text source) : Location })
    <$> .ofField "line" (Raw.ordinalOf span.first.line)
    <*> .ofField "column" (Raw.ordinalOf span.first.column)
    <*> .ofField "end_line" (Raw.ordinalOf span.last.line)
    <*> .ofField "end_column" (Raw.ordinalOf span.last.column)

end Location

/-- The fields of a finding before any check. -/
structure RawFinding where
  ruleId : Option Raw
  message : Option Raw
  /-- A record of raw fields, or any other value. -/
  location : Option (RawLocation ⊕ Raw)
  severity : Option Raw
  deriving Repr, Inhabited

namespace Finding

/-- Checks the fields of a finding whose location has passed its own check. -/
def ofParts (raw : RawFinding) (location : Except FieldCause Location) : Checked Finding :=
  Finding.mk
    <$> .ofField "rule_id" (Raw.required Raw.string raw.ruleId)
    <*> .ofField "message" (Raw.required Raw.string raw.message)
    <*> .ofField "location" location
    <*> .ofField "severity" ((raw.severity.map Raw.string).getD (.ok defaultSeverity))

/-- Checks a finding.  A location given as a record is checked first, and if it has faults these are
the only ones reported. -/
def ofRaw (raw : RawFinding) : Checked Finding :=
  match raw.location with
  | none => ofParts raw (.error .missing)
  | some (.inr _) => ofParts raw (.error .notLocation)
  | some (.inl fields) =>
    match Location.ofRaw fields with
    | .bad faults => .bad faults
    | .good location => ofParts raw (.ok location)

end Finding

end MemoAudit
