import MemoAudit.Report.Palette
import MemoAudit.Text.Blank

/-!
# Styles of text

The name of a tag describes a style in words: attributes such as `bold`, each with `not` in front if
it is switched off, a colour, a background after `on`, and an address after `link`.  Words may come
in any order and may be abbreviated, so a style has many names; `canonicalName` gives the one that
tags are compared by.  A name that describes no style is only freed of capitals.
-/

namespace MemoAudit.Report

/-! ## Attributes -/

inductive Attribute where
  | bold
  | dim
  | italic
  | underline
  | blink
  | blink2
  | reverse
  | conceal
  | strike
  | underline2
  | frame
  | encircle
  | overline
  deriving DecidableEq, Repr, Inhabited

namespace Attribute

/-- The attributes in the order in which they are named. -/
def all : List Attribute := [
  .bold, .dim, .italic, .underline, .blink, .blink2, .reverse, .conceal, .strike, .underline2,
  .frame, .encircle, .overline]

def name : Attribute → String
  | .bold => "bold"
  | .dim => "dim"
  | .italic => "italic"
  | .underline => "underline"
  | .blink => "blink"
  | .blink2 => "blink2"
  | .reverse => "reverse"
  | .conceal => "conceal"
  | .strike => "strike"
  | .underline2 => "underline2"
  | .frame => "frame"
  | .encircle => "encircle"
  | .overline => "overline"

def abbreviation? : Attribute → Option String
  | .bold => some "b"
  | .dim => some "d"
  | .italic => some "i"
  | .underline => some "u"
  | .reverse => some "r"
  | .conceal => some "c"
  | .strike => some "s"
  | .underline2 => some "uu"
  | .overline => some "o"
  | .blink | .blink2 | .frame | .encircle => none

/-- The attribute that a word names or abbreviates. -/
def ofWord? (word : List Char) : Option Attribute :=
  let text := String.ofList word
  all.find? fun found => found.name == text || found.abbreviation? == some text

end Attribute

/-! ## Styles -/

/-- A style: the attributes that are switched on or off, last switch first, the colours by their
spelling, and an address. -/
structure TextStyle where
  switches : List (Attribute × Bool) := []
  foreground : Option (List Char) := none
  background : Option (List Char) := none
  link : Option (List Char) := none
  deriving DecidableEq, Repr, Inhabited

namespace TextStyle

/-- The words for an attribute of a style, if it is switched. -/
def switchWords (style : TextStyle) (switched : Attribute) : List String :=
  match style.switches.lookup switched with
  | some true => [switched.name]
  | some false => ["not", switched.name]
  | none => []

/-- The words that describe a style, in a fixed order. -/
def words (style : TextStyle) : List String :=
  Attribute.all.flatMap style.switchWords ++
    (style.foreground.toList.map String.ofList) ++
    (style.background.toList.flatMap fun spelling => ["on", String.ofList spelling]) ++
    (style.link.toList.flatMap fun address => ["link", String.ofList address])

/-- The name of a style. -/
def name (style : TextStyle) : String :=
  if style.words = [] then "none" else " ".intercalate style.words

/-- Adds what words describe to a style, up to the first word that makes no sense. -/
def read (style : TextStyle) : List (List Char) → Except ColourFault TextStyle
  | [] => .ok style
  | word :: rest =>
    let small := Text.lower word
    if small = "on".toList then
      match rest with
      | [] => .error .unknown
      | next :: rest => do read { style with background := some (← colour next) } rest
    else if small = "not".toList then
      match rest with
      | [] => .error .unknown
      | next :: rest =>
        match Attribute.ofWord? next with
        | some switched => read { style with switches := (switched, false) :: style.switches } rest
        | none => .error .unknown
    else if small = "link".toList then
      match rest with
      | [] => .error .unknown
      | next :: rest => read { style with link := some next } rest
    else
      match Attribute.ofWord? small with
      | some switched => read { style with switches := (switched, true) :: style.switches } rest
      | none => do read { style with foreground := some (← colour word) } rest

end TextStyle

/-- The parts of a text between white space. -/
def splitBlanks (text : List Char) : List (List Char) :=
  (text.splitOnP Text.isBlank).filter (!·.isEmpty)

/-- The name that a tag with the given name is compared by; there is none if a colour has an empty
component. -/
def canonicalName (name : List Char) : Option String :=
  let trimmed := Text.trimEnd (Text.trimStart name)
  if trimmed = "none".toList then some "none"
  else
    match TextStyle.read {} (splitBlanks name) with
    | .ok style => some style.name
    | .error .unknown => some (String.ofList (Text.lower trimmed))
    | .error .emptyComponent => none

end MemoAudit.Report
