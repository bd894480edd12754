import MemoAudit.FileSystem.Basic
import MemoAudit.Finding.Validation
import MemoAudit.Naming

/-!
# Settings

The one thing that a user can configure is the style of leading underscores.  Settings are given as
a table of named values; the style has two spellings of its name, of which the second (`aliasKey`)
wins if both are present, and then the first counts as a key that nobody knows.  Unknown keys are
faults, and so is a style that is not exactly one of the three words.

A fault of the settings is reported together with where they came from.
-/

namespace MemoAudit

structure Settings where
  style : Style := .disallowed
  deriving DecidableEq, Repr, Inhabited

/-- Settings before any check: a table, in the order in which it was written, or some other
value. -/
inductive RawSettings where
  | table (entries : List (String × Raw))
  | other
  deriving Repr, Inhabited

/-- Why the value of a key is refused. -/
inductive KeyCause where
  | unknownStyle
  | unknownKey
  deriving DecidableEq, Repr, Inhabited

def KeyCause.message : KeyCause → String
  | .unknownStyle => "Input should be 'disallowed', 'required' or 'optional'"
  | .unknownKey => "Extra inputs are not permitted"

structure KeyFault where
  key : String
  cause : KeyCause
  deriving DecidableEq, Repr, Inhabited

/-- How a key is shown where keys may be joined by points: one that has a point itself is set
off. -/
def shownKey (key : String) : String := if key.contains '.' then "`" ++ key ++ "`" else key

/-- The lines about one key. -/
def KeyFault.text (fault : KeyFault) : String := s!"\n{shownKey fault.key}\n  {fault.cause.message}"

/-- What is wrong with raw settings as a whole. -/
inductive SettingsFault where
  | notTable
  | keys (faults : List KeyFault)
  deriving DecidableEq, Repr, Inhabited

namespace SettingsFault

def count : SettingsFault → Nat
  | .notTable => 1
  | .keys faults => faults.length

/-- The account of all faults, one after the other. -/
def message (fault : SettingsFault) : String :=
  let errors := if fault.count = 1 then "error" else "errors"
  let details :=
    match fault with
    | .notTable => "\n  Input should be a valid dictionary or instance of MemoizedNameSettings"
    | .keys faults => String.join (faults.map KeyFault.text)
  s!"{fault.count} validation {errors} for MemoizedNameSettings{details}"

end SettingsFault

namespace Settings

def styleKey : String := "enforced_style_for_leading_underscores"

/-- The second spelling of the style's key, which takes precedence. -/
def aliasKey : String := "EnforcedStyleForLeadingUnderscores"

/-- The key under which a table gives the style, if it does. -/
def givenKey? (entries : List (String × Raw)) : Option String :=
  [aliasKey, styleKey].find? fun key => (entries.lookup key).isSome

/-- The style that a value names. -/
def styleOf? : Raw → Option Style
  | .text word => Style.ofName? word
  | _ => none

/-- The keys of a table that mean nothing, given the key that was taken for the style. -/
def unknownKeys (given : Option String) (entries : List (String × Raw)) : List KeyFault :=
  (entries.filter fun entry => some entry.1 != given).map fun entry => ⟨entry.1, .unknownKey⟩

/-- Checks raw settings; a table that does not mention the style leaves the default. -/
def validate : RawSettings → Except SettingsFault Settings
  | .other => .error .notTable
  | .table entries =>
    let given := givenKey? entries
    let unknown := unknownKeys given entries
    match given with
    | none => if unknown = [] then .ok {} else .error (.keys unknown)
    | some key =>
      match (entries.lookup key).bind styleOf? with
      | none => .error (.keys (⟨key, .unknownStyle⟩ :: unknown))
      | some style => if unknown = [] then .ok { style } else .error (.keys unknown)

end Settings

/-! ## Failing to get settings -/

/-- Why there are no settings.  The first three are the user's to mend and are explained; the others
mean that a configuration file is not even of the expected form, or that paths could not be looked
up. -/
inductive ConfigFault where
  | unreadable (file : Path)
  | entryNotTable (file : Path)
  | invalid (origin : String) (fault : SettingsFault)
  | toolsNotTable
  | notUtf8
  | inaccessible (fault : PathFault)
  deriving DecidableEq, Repr, Inhabited

namespace ConfigFault

/-- Whether the fault is explained to the user as a configuration error. -/
def isExplained : ConfigFault → Bool
  | .unreadable _ | .entryNotTable _ | .invalid .. => true
  | .toolsNotTable | .notUtf8 | .inaccessible _ => false

def message : ConfigFault → String
  | .unreadable file => s!"Cannot read {file}"
  | .entryNotTable file => s!"[tool.memolint] in {file} must be a table"
  | .invalid origin fault => s!"Invalid configuration in {origin}: {fault.message}"
  | .toolsNotTable => "The tool entry is not a table"
  | .notUtf8 => "The file is not UTF-8 text"
  | .inaccessible fault => fault.message

end ConfigFault

/-- Checks raw settings that come from the given place. -/
def Settings.validateFrom (origin : String) (raw : RawSettings) : Except ConfigFault Settings :=
  (Settings.validate raw).mapError (.invalid origin)

end MemoAudit
