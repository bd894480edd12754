import MemoAudit.Rule
import MemoAudit.Settings.Basic
import MemoAudit.Toml.Reader
import MemoAudit.Workspace

/-!
# Looking settings up

Settings are kept in a table of a configuration file.  The file may stand in the directory where the
lookup starts or in any one above it.  A configuration file that does not have the table says
nothing, and the lookup goes on above it; the first file that says something, if only that it cannot
be read, decides (`Workspace.tableAbove`).

A style that is given by hand takes precedence over what the files say, but they are looked up all
the same and their faults are reported.
-/

namespace MemoAudit

/-- The name of configuration files. -/
def configurationName : String := "pyproject.toml"

/-- The table that configuration files keep for all tools. -/
def toolsKey : String := "tool"

/-- The table, among those of all tools, that holds the settings. -/
def entryKey : String := "memolint"

/-- The entries of the settings table of a document, if it has one. -/
def settingsTable? (file : Path) (document : Toml.Table) : Except ConfigFault (Option Toml.Table) :=
  match document.lookup toolsKey with
  | none => .ok none
  | some (.table _ tools) =>
    match tools.lookup entryKey with
    | none => .ok none
    | some (.table _ entries) => .ok (some entries)
    | some _ => .error (.entryNotTable file)
  | some _ => .error .toolsNotTable

/-- The settings table in the text of a configuration file. -/
def tableInText? (file : Path) (content : Bytes) : Except ConfigFault (Option Toml.Table) :=
  match Text.Utf8.decode? content with
  | none => .error .notUtf8
  | some text =>
    match Toml.read text with
    | none => .error (.unreadable file)
    | some document => settingsTable? file document

/-- A value of a document as a raw value of settings. -/
def Toml.Value.toRaw : Toml.Value → Raw
  | .text value => .text value
  | .boolean value => .truth value
  | .integer value => .integer value
  | .float _ | .moment _ | .array .. | .table .. => .composite

/-- The entries of a settings table as raw settings. -/
def RawSettings.ofTable (entries : Toml.Table) : RawSettings :=
  .table (entries.map fun (key, value) => (key, value.toRaw))

namespace Workspace

/-- The settings table in the configuration file at a path; there is none if there is no file. -/
def tableAt (workspace : Workspace) (file : Path) : Except ConfigFault (Option Toml.Table) :=
  match workspace.isFile file with
  | .error fault => .error (.inaccessible fault)
  | .ok false => .ok none
  | .ok true =>
    match workspace.read file with
    | .error _ => .error (.unreadable file)
    | .ok content => tableInText? file content

/-- The first settings table in the configuration files of directories, and the file that has it. -/
def tableIn (workspace : Workspace) : List Path → Except ConfigFault (Option (Path × Toml.Table))
  | [] => .ok none
  | directory :: rest =>
    let file := directory.child configurationName
    match workspace.tableAt file with
    | .error fault => .error fault
    | .ok (some entries) => .ok (some (file, entries))
    | .ok none => workspace.tableIn rest

/-- The directories in which a lookup that starts from a path looks for configuration files, nearest
first.  A lookup that starts from a file begins in its directory. -/
def lookupDirectories (workspace : Workspace) (start : Path) : Except ConfigFault (List Path) := do
  let resolved ← (workspace.resolve start).mapError .inaccessible
  let startsAtFile ← (workspace.isFile resolved).mapError .inaccessible
  return (if startsAtFile then resolved.parent else resolved).selfAndParents

/-- The nearest settings table above a path, and the file that has it. -/
def tableAbove (workspace : Workspace) (start : Path) :
    Except ConfigFault (Option (Path × Toml.Table)) := do
  workspace.tableIn (← workspace.lookupDirectories start)

/-- The settings that apply at a path. -/
def loadSettings (workspace : Workspace) (start : Path) : Logged (Except ConfigFault Settings) :=
  match workspace.tableAbove start with
  | .error fault => pure (.error fault)
  | .ok none => do
    .note .debug .settings
      s!"No [{toolsKey}.{entryKey}] table found from {start}; using defaults"
    pure (.ok {})
  | .ok (some (file, entries)) =>
    match Settings.validateFrom file.text (.ofTable entries) with
    | .error fault => pure (.error fault)
    | .ok settings => do
      .note .info .settings s!"Loaded settings from {file}: style={settings.style.name}"
      pure (.ok settings)

end Workspace

/-! ## Configurations -/

/-- The settings of a run and the rules that follow from them. -/
structure Configuration where
  settings : Settings
  rules : List Rule

def Configuration.ofSettings (settings : Settings) : Configuration where
  settings
  rules := [namingRule settings.style]

/-- Settings that consist of a style given by hand. -/
def Settings.ofWord (word : String) : Except ConfigFault Settings :=
  validateFrom "command line" (.table [(styleKey, .text word)])

/-- The configuration that applies at a path, with a style given by hand or not. -/
def Workspace.configure (workspace : Workspace) (given : Option String) (start : Path) :
    Logged (Except ConfigFault Configuration) := do
  match ← workspace.loadSettings start with
  | .error fault => pure (.error fault)
  | .ok settings =>
    match given with
    | none => pure (.ok (.ofSettings settings))
    | some word => pure ((Settings.ofWord word).map .ofSettings)

end MemoAudit
