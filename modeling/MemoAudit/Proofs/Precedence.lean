import Mathlib
import MemoAudit.CommandLine.Run
import MemoAudit.Proofs.Decoding

/-!
# Which configuration applies

A lookup goes through a chain of directories, nearest first, and each of them may have a
configuration file.  This file says what such a file can do to the lookup, without reference to how
the lookup goes about it.

* It can be *silent* (`Workspace.IsSilent`): there is no file, or there is a document without an
  entry for this program.
* It can *decide* (`Workspace.Decides`): the file cannot be read or is malformed, or the entry is
  not a table, or it is one, be it empty, and is checked.  What a check accepts is said by
  `Toml.Table.Grants`: an empty table grants the default style, and one with a single key, in either
  spelling, the style that it names.
* It can *defy* the lookup (`Workspace.Defies`): its bytes are no text, or what it keeps for all
  tools is no table, or the system refuses to say what is there.

There is nothing else (`isSilent_or_decides_or_defies`), and a lookup is the first answer along the
chain, or the default settings if nobody answers (`value_loadSettings`).  So the nearest directory
that is not silent determines the settings, and whatever is above it can be changed at will
(`loadSettings_nearest`).

Deciding and defying differ in what a user is told.  All faults of a file that decides are explained
as errors of the configuration, and end a run with the exit code 2.  The faults of a file that
defies the lookup are not explained: they end a run with the exit code 1, as findings do
(`loadSettings_explained_iff`).
-/

namespace MemoAudit

/-- The configuration file of a directory. -/
def Path.configuration (directory : Path) : Path := directory.child configurationName

theorem Settings.ofWord_name (style : Style) : Settings.ofWord style.name = .ok { style } := by
  cases style <;> rfl

theorem Toml.Value.exists_eq_table_or (value : Toml.Value) :
    (∃ form entries, value = .table form entries) ∨
      ∀ form entries, value ≠ .table form entries := by
  cases value <;> simp

/-! ## What a settings table grants -/

/-- The styles that a settings table grants: the default if it has no keys, and else the one whose
name stands under the only key that it has, which is one of the two spellings. -/
inductive Toml.Table.Grants (entries : Toml.Table) : Style → Prop
  | byDefault (h : ∀ key, entries.lookup key = none) : Grants entries .disallowed
  | byName {style : Style} {key : String}
      (hkey : key = Settings.styleKey ∨ key = Settings.aliasKey)
      (hvalue : entries.lookup key = some (.text style.name))
      (hothers : ∀ other ≠ key, entries.lookup other = none) : Grants entries style

/-- A table with the style under its first spelling grants it. -/
theorem Toml.Table.grants_singleton (style : Style) :
    Grants [(Settings.styleKey, .text style.name)] style := by
  refine .byName (.inl rfl) (List.lookup_cons_self) fun other hother => ?_
  rw [List.lookup_cons, beq_false_of_ne hother]
  rfl

theorem Toml.Value.styleOf?_toRaw_eq_some_iff {value : Toml.Value} {style : Style} :
    Settings.styleOf? value.toRaw = some style ↔ value = .text style.name := by
  cases value <;> simp [toRaw, Settings.styleOf?, Style.ofName?_eq_some_iff]

namespace Settings

variable {entries : List (String × Raw)}

theorem unknownKeys_eq_nil_iff {given : Option String} :
    unknownKeys given entries = [] ↔ ∀ key, some key ≠ given → entries.lookup key = none := by
  simp only [unknownKeys, List.map_eq_nil_iff, List.filter_eq_nil_iff, List.lookup_eq_none_iff]
  grind

theorem givenKey?_of_lookup_eq_none (h : ∀ key, entries.lookup key = none) :
    givenKey? entries = none := by
  simp [givenKey?, h]

/-- The only key of a table is the one that is taken for the style, if it is a spelling of it. -/
theorem givenKey?_of_lookup {key : String} {value : Raw} (hkey : key = styleKey ∨ key = aliasKey)
    (hvalue : entries.lookup key = some value)
    (hothers : ∀ other ≠ key, entries.lookup other = none) : givenKey? entries = some key := by
  obtain rfl | rfl := hkey
  · have halias : entries.lookup aliasKey = none := hothers aliasKey (by decide)
    simp [givenKey?, halias, hvalue]
  · simp [givenKey?, hvalue]

theorem mem_of_givenKey? {key : String} (h : givenKey? entries = some key) :
    key = styleKey ∨ key = aliasKey := by
  have hmem := List.mem_of_find?_eq_some h
  simpa [or_comm] using hmem

/-- What a check accepts. -/
theorem validate_table_eq_ok_iff {settings : Settings} :
    validate (.table entries) = .ok settings ↔
      ((∀ key, entries.lookup key = none) ∧ settings.style = .disallowed) ∨
      ∃ key, (key = styleKey ∨ key = aliasKey) ∧
        (entries.lookup key).bind styleOf? = some settings.style ∧
        ∀ other ≠ key, entries.lookup other = none := by
  obtain ⟨style⟩ := settings
  constructor
  · intro h
    cases hgiven : givenKey? entries with
    | none =>
      simp only [validate, hgiven] at h
      split at h
      · rename_i hunknown
        cases h
        exact .inl ⟨fun key => unknownKeys_eq_nil_iff.1 hunknown key (by simp), rfl⟩
      · cases h
    | some key =>
      simp only [validate, hgiven] at h
      split at h
      · cases h
      · rename_i named hnamed
        split at h
        · rename_i hunknown
          cases h
          exact .inr ⟨key, mem_of_givenKey? hgiven, hnamed, fun other hother =>
            unknownKeys_eq_nil_iff.1 hunknown other (by simpa using hother)⟩
        · cases h
  · rintro (⟨hnone, rfl⟩ | ⟨key, hkey, hnamed, hothers⟩)
    · have hgiven := givenKey?_of_lookup_eq_none hnone
      have hunknown : unknownKeys none entries = [] :=
        unknownKeys_eq_nil_iff.2 fun key _ => hnone key
      simp [validate, hgiven, hunknown]
    · obtain ⟨value, hvalue, -⟩ := Option.bind_eq_some_iff.1 hnamed
      have hgiven := givenKey?_of_lookup hkey hvalue hothers
      have hunknown : unknownKeys (some key) entries = [] :=
        unknownKeys_eq_nil_iff.2 fun other hother => hothers other (by simpa using hother)
      simp [validate, hgiven, hnamed, hunknown]

/-- A check that does not accept a table says where the table comes from. -/
theorem validateFrom_eq_ok_or (origin : String) (raw : RawSettings) :
    (∃ settings, validateFrom origin raw = .ok settings) ∨
      ∃ cause, validateFrom origin raw = .error (.invalid origin cause) := by
  rw [validateFrom]
  cases validate raw with
  | ok settings => exact .inl ⟨settings, rfl⟩
  | error cause => exact .inr ⟨cause, rfl⟩

end Settings

theorem RawSettings.lookup_toRaw (entries : Toml.Table) (key : String) :
    (entries.map fun (key, value) => (key, value.toRaw)).lookup key =
      (entries.lookup key).map Toml.Value.toRaw := by
  induction entries with
  | nil => rfl
  | cons entry entries ih =>
    obtain ⟨name, value⟩ := entry
    simp only [List.map_cons, List.lookup_cons, ih]
    split <;> rfl

/-- A settings table is accepted for the styles that it grants. -/
theorem Settings.validateFrom_ofTable_eq_ok_iff {origin : String} {entries : Toml.Table}
    {settings : Settings} :
    validateFrom origin (.ofTable entries) = .ok settings ↔ entries.Grants settings.style := by
  have haccepted : validateFrom origin (.ofTable entries) = .ok settings ↔
      validate (.ofTable entries) = .ok settings := by
    rw [validateFrom]
    cases validate (.ofTable entries) <;> simp [Except.mapError]
  have hlookup (key : String) : ((entries.lookup key).map Toml.Value.toRaw).bind styleOf? =
        some settings.style ↔ entries.lookup key = some (.text settings.style.name) := by
    cases entries.lookup key <;> simp [Toml.Value.styleOf?_toRaw_eq_some_iff]
  rw [haccepted, RawSettings.ofTable, validate_table_eq_ok_iff]
  simp only [RawSettings.lookup_toRaw, Option.map_eq_none_iff, hlookup]
  constructor
  · rintro (⟨hnone, hstyle⟩ | ⟨key, hkey, hvalue, hothers⟩)
    · rw [hstyle]
      exact .byDefault hnone
    · exact .byName hkey hvalue hothers
  · intro h
    generalize hstyle : settings.style = style at h ⊢
    cases h with
    | byDefault hnone => exact .inl ⟨hnone, rfl⟩
    | byName hkey hvalue hothers => exact .inr ⟨_, hkey, hvalue, hothers⟩

theorem Settings.forall_not_grants_iff {origin : String} {entries : Toml.Table} :
    (∀ style, ¬ entries.Grants style) ↔
      ∃ cause, validateFrom origin (.ofTable entries) = .error (.invalid origin cause) := by
  constructor
  · intro h
    obtain ⟨settings, hsettings⟩ | hfault := validateFrom_eq_ok_or origin (.ofTable entries)
    · exact absurd (validateFrom_ofTable_eq_ok_iff.1 hsettings) (h settings.style)
    · exact hfault
  · rintro ⟨cause, hcause⟩ style hgrants
    have hsettings : validateFrom origin (.ofTable entries) = .ok { style } :=
      validateFrom_ofTable_eq_ok_iff.2 hgrants
    rw [hcause] at hsettings
    cases hsettings

namespace Workspace

variable {workspace other : Workspace} {directory start : Path} {directories : List Path}

/-! ## What a configuration file says -/

/-- What the system tells about the configuration file of a directory: whether it is a file, and
what bytes it holds. -/
def evidence (workspace : Workspace) (directory : Path) :
    Except PathFault Bool × Except AccessFault Bytes :=
  (workspace.isFile directory.configuration, workspace.read directory.configuration)

/-- The directory has a configuration file with these bytes. -/
def HasContent (workspace : Workspace) (directory : Path) (content : Bytes) : Prop :=
  workspace.evidence directory = (.ok true, .ok content)

/-- The directory has a configuration file in which this document is written. -/
def HasDocument (workspace : Workspace) (directory : Path) (document : Toml.Table) : Prop :=
  ∃ content text, workspace.HasContent directory content ∧
    Text.Utf8.decode? content = some text ∧ Toml.read text = some document

/-- The configuration file of a directory has this value for the program. -/
def HasEntry (workspace : Workspace) (directory : Path) (value : Toml.Value) : Prop :=
  ∃ document form tools, workspace.HasDocument directory document ∧
    document.lookup toolsKey = some (.table form tools) ∧ tools.lookup entryKey = some value

/-- The configuration file of a directory, if there is one, has nothing to say. -/
inductive IsSilent (workspace : Workspace) (directory : Path) : Prop
  | absent (h : workspace.isFile directory.configuration = .ok false)
  | noTools {document : Toml.Table} (h : workspace.HasDocument directory document)
      (htools : document.lookup toolsKey = none)
  | noEntry {document tools : Toml.Table} {form : Toml.TableForm}
      (h : workspace.HasDocument directory document)
      (htools : document.lookup toolsKey = some (.table form tools))
      (hentry : tools.lookup entryKey = none)

/-- The configuration file of a directory settles the outcome of a lookup. -/
inductive Decides (workspace : Workspace) (directory : Path) : Except ConfigFault Settings → Prop
  | unreadable {fault : AccessFault} (h : workspace.evidence directory = (.ok true, .error fault)) :
      Decides workspace directory (.error (.unreadable directory.configuration))
  | malformed {content : Bytes} {text : String} (h : workspace.HasContent directory content)
      (htext : Text.Utf8.decode? content = some text) (hread : Toml.read text = none) :
      Decides workspace directory (.error (.unreadable directory.configuration))
  | notTable {value : Toml.Value} (h : workspace.HasEntry directory value)
      (hvalue : ∀ form entries, value ≠ .table form entries) :
      Decides workspace directory (.error (.entryNotTable directory.configuration))
  | table {form : Toml.TableForm} {entries : Toml.Table}
      (h : workspace.HasEntry directory (.table form entries)) :
      Decides workspace directory
        (Settings.validateFrom directory.configuration.text (.ofTable entries))

/-- The configuration file of a directory is not even of the form that a lookup counts on. -/
inductive Defies (workspace : Workspace) (directory : Path) : ConfigFault → Prop
  | notUtf8 {content : Bytes} (h : workspace.HasContent directory content)
      (htext : Text.Utf8.decode? content = none) : Defies workspace directory .notUtf8
  | toolsNotTable {document : Toml.Table} {value : Toml.Value}
      (h : workspace.HasDocument directory document)
      (htools : document.lookup toolsKey = some value)
      (hvalue : ∀ form entries, value ≠ .table form entries) :
      Defies workspace directory .toolsNotTable
  | refused {fault : PathFault} (h : workspace.isFile directory.configuration = .error fault) :
      Defies workspace directory (.inaccessible fault)

theorem hasDocument_of_encode {text : String} {document : Toml.Table}
    (h : workspace.HasContent directory (Text.Utf8.encode text))
    (hread : Toml.read text = some document) : workspace.HasDocument directory document :=
  ⟨_, text, h, Text.Utf8.decode?_encode text, hread⟩

theorem classified_of_hasDocument {document : Toml.Table}
    (h : workspace.HasDocument directory document) :
    workspace.IsSilent directory ∨ (∃ outcome, workspace.Decides directory outcome) ∨
      ∃ fault, workspace.Defies directory fault := by
  cases htools : document.lookup toolsKey with
  | none => exact .inl (.noTools h htools)
  | some tools =>
    obtain ⟨form, entries, rfl⟩ | htable := tools.exists_eq_table_or
    · cases hentry : entries.lookup entryKey with
      | none => exact .inl (.noEntry h htools hentry)
      | some value =>
        have hvalue : workspace.HasEntry directory value :=
          ⟨document, form, entries, h, htools, hentry⟩
        obtain ⟨form, entries, rfl⟩ | htable := value.exists_eq_table_or
        · exact .inr (.inl ⟨_, .table hvalue⟩)
        · exact .inr (.inl ⟨_, .notTable hvalue htable⟩)
    · exact .inr (.inr ⟨_, .toolsNotTable h htools htable⟩)

/-- Every configuration file does one of the three. -/
theorem isSilent_or_decides_or_defies (workspace : Workspace) (directory : Path) :
    workspace.IsSilent directory ∨ (∃ outcome, workspace.Decides directory outcome) ∨
      ∃ fault, workspace.Defies directory fault := by
  cases hfile : workspace.isFile directory.configuration with
  | error fault => exact .inr (.inr ⟨_, .refused hfile⟩)
  | ok isFile =>
    cases isFile with
    | false => exact .inl (.absent hfile)
    | true =>
      cases hread : workspace.read directory.configuration with
      | error fault => exact .inr (.inl ⟨_, .unreadable (Prod.ext hfile hread)⟩)
      | ok content =>
        have hcontent : workspace.HasContent directory content := Prod.ext hfile hread
        cases htext : Text.Utf8.decode? content with
        | none => exact .inr (.inr ⟨_, .notUtf8 hcontent htext⟩)
        | some text =>
          cases hdocument : Toml.read text with
          | none => exact .inr (.inl ⟨_, .malformed hcontent htext hdocument⟩)
          | some document =>
            exact classified_of_hasDocument ⟨content, text, hcontent, htext, hdocument⟩

/-! ## What a lookup makes of it -/

/-- What follows from the configuration file of a directory, if anything does. -/
def outcomeAt? (workspace : Workspace) (directory : Path) : Option (Except ConfigFault Settings) :=
  match workspace.tableAt directory.configuration with
  | .error fault => some (.error fault)
  | .ok none => none
  | .ok (some entries) =>
    some (Settings.validateFrom directory.configuration.text (.ofTable entries))

theorem tableAt_of_hasContent {content : Bytes} (h : workspace.HasContent directory content) :
    workspace.tableAt directory.configuration =
      tableInText? directory.configuration content := by
  obtain ⟨hfile, hread⟩ := Prod.mk.inj h
  simp only [tableAt, hfile, hread]

theorem tableAt_of_hasDocument {document : Toml.Table}
    (h : workspace.HasDocument directory document) :
    workspace.tableAt directory.configuration =
      settingsTable? directory.configuration document := by
  obtain ⟨content, text, hcontent, htext, hread⟩ := h
  rw [tableAt_of_hasContent hcontent]
  simp only [tableInText?, htext, hread]

theorem outcomeAt?_of_isSilent (h : workspace.IsSilent directory) :
    workspace.outcomeAt? directory = none := by
  have htable : workspace.tableAt directory.configuration = .ok none := by
    cases h with
    | absent h => simp only [tableAt, h]
    | noTools h htools =>
      rw [tableAt_of_hasDocument h]
      simp only [settingsTable?, htools]
    | noEntry h htools hentry =>
      rw [tableAt_of_hasDocument h]
      simp only [settingsTable?, htools, hentry]
  simp only [outcomeAt?, htable]

theorem outcomeAt?_of_decides {outcome : Except ConfigFault Settings}
    (h : workspace.Decides directory outcome) : workspace.outcomeAt? directory = some outcome := by
  cases h with
  | unreadable h =>
    obtain ⟨hfile, hread⟩ := Prod.mk.inj h
    simp only [outcomeAt?, tableAt, hfile, hread]
  | malformed h htext hread =>
    rw [outcomeAt?, tableAt_of_hasContent h]
    simp only [tableInText?, htext, hread]
  | notTable h hvalue =>
    rename_i value
    obtain ⟨document, form, tools, hdocument, htools, hentry⟩ := h
    rw [outcomeAt?, tableAt_of_hasDocument hdocument]
    cases value with
    | table form entries => exact absurd rfl (hvalue form entries)
    | _ => simp only [settingsTable?, htools, hentry]
  | table h =>
    obtain ⟨document, form, tools, hdocument, htools, hentry⟩ := h
    rw [outcomeAt?, tableAt_of_hasDocument hdocument]
    simp only [settingsTable?, htools, hentry]

theorem outcomeAt?_of_defies {fault : ConfigFault} (h : workspace.Defies directory fault) :
    workspace.outcomeAt? directory = some (.error fault) := by
  cases h with
  | notUtf8 h htext =>
    rw [outcomeAt?, tableAt_of_hasContent h]
    simp only [tableInText?, htext]
  | toolsNotTable h htools hvalue =>
    rename_i document value
    rw [outcomeAt?, tableAt_of_hasDocument h]
    cases value with
    | table form entries => exact absurd rfl (hvalue form entries)
    | _ => simp only [settingsTable?, htools]
  | refused h => simp only [outcomeAt?, tableAt, h]

theorem outcomeAt?_eq_none_iff :
    workspace.outcomeAt? directory = none ↔ workspace.IsSilent directory := by
  refine ⟨fun h => ?_, outcomeAt?_of_isSilent⟩
  obtain hsilent | ⟨outcome, hdecides⟩ | ⟨fault, hdefies⟩ :=
    workspace.isSilent_or_decides_or_defies directory
  · exact hsilent
  · simp [outcomeAt?_of_decides hdecides] at h
  · simp [outcomeAt?_of_defies hdefies] at h

theorem not_isSilent_of_decides {outcome : Except ConfigFault Settings}
    (h : workspace.Decides directory outcome) : ¬ workspace.IsSilent directory := by
  rw [← outcomeAt?_eq_none_iff, outcomeAt?_of_decides h]
  simp

/-- What follows from a configuration file depends on nothing but what the system tells about it. -/
theorem outcomeAt?_eq_of_evidence (h : other.evidence directory = workspace.evidence directory) :
    other.outcomeAt? directory = workspace.outcomeAt? directory := by
  obtain ⟨hfile, hread⟩ := Prod.mk.inj h
  simp only [outcomeAt?, tableAt, hfile, hread]

/-- A lookup gives the first answer along the chain. -/
theorem value_loadSettings (h : workspace.lookupDirectories start = .ok directories) :
    (workspace.loadSettings start).value =
      (directories.findSome? workspace.outcomeAt?).getD (.ok {}) := by
  have htable : workspace.tableAbove start = workspace.tableIn directories := by
    simp only [tableAbove, h]
    rfl
  simp only [loadSettings, htable]
  clear h htable
  induction directories with
  | nil => rfl
  | cons directory rest ih =>
    have houtcome : workspace.outcomeAt? directory =
        match workspace.tableAt (directory.child configurationName) with
        | .error fault => some (.error fault)
        | .ok none => none
        | .ok (some entries) =>
          some
            (Settings.validateFrom (directory.child configurationName).text (.ofTable entries)) :=
      rfl
    rw [List.findSome?_cons, houtcome, tableIn]
    cases htable : workspace.tableAt (directory.child configurationName) with
    | error fault => rfl
    | ok entries? =>
      cases entries? with
      | none => exact ih
      | some entries =>
        simp only [RawSettings.ofTable, Option.getD_some]
        split <;> simp_all

/-- The faults of a file that decides are explained. -/
theorem isExplained_of_decides {fault : ConfigFault}
    (h : workspace.Decides directory (.error fault)) : fault.isExplained = true := by
  generalize houtcome : (.error fault : Except ConfigFault Settings) = outcome at h
  cases h with
  | unreadable | malformed | notTable => cases houtcome; rfl
  | table =>
    rw [Settings.validateFrom] at houtcome
    cases hvalidate : Settings.validate (.ofTable _) with
    | error cause =>
      rw [hvalidate] at houtcome
      cases houtcome
      rfl
    | ok settings => simp [hvalidate, Except.mapError] at houtcome

/-- The faults of a file that defies the lookup are not. -/
theorem isExplained_of_defies {fault : ConfigFault} (h : workspace.Defies directory fault) :
    fault.isExplained = false := by
  cases h <;> rfl

/-! ## The nearest answer -/

/-- The directory is the first one of a chain that is not silent. -/
def IsNearest (workspace : Workspace) (directories : List Path) (directory : Path) : Prop :=
  ¬ workspace.IsSilent directory ∧ ∃ front rest, directories = front ++ directory :: rest ∧
    ∀ nearer ∈ front, workspace.IsSilent nearer

theorem findSome?_outcomeAt?_eq_none_iff :
    directories.findSome? workspace.outcomeAt? = none ↔
      ∀ directory ∈ directories, workspace.IsSilent directory := by
  simp only [List.findSome?_eq_none_iff, outcomeAt?_eq_none_iff]

theorem findSome?_outcomeAt?_of_isNearest (h : workspace.IsNearest directories directory) :
    directories.findSome? workspace.outcomeAt? = workspace.outcomeAt? directory := by
  obtain ⟨hspeaks, front, rest, rfl, hfront⟩ := h
  rw [List.findSome?_append, findSome?_outcomeAt?_eq_none_iff.2 hfront, Option.none_or,
    List.findSome?_cons]
  cases houtcome : workspace.outcomeAt? directory with
  | none => exact absurd (outcomeAt?_eq_none_iff.1 houtcome) hspeaks
  | some outcome => rfl

/-- Either all are silent, or there is a nearest one that is not. -/
theorem isSilent_or_exists_isNearest (workspace : Workspace) (directories : List Path) :
    (∀ directory ∈ directories, workspace.IsSilent directory) ∨
      ∃ directory, workspace.IsNearest directories directory := by
  rw [← findSome?_outcomeAt?_eq_none_iff]
  cases hfind : directories.findSome? workspace.outcomeAt? with
  | none => exact .inl rfl
  | some outcome =>
    obtain ⟨front, directory, rest, rfl, houtcome, hfront⟩ := List.findSome?_eq_some_iff.1 hfind
    refine .inr ⟨directory, ?_, front, rest, rfl, fun nearer hnearer => ?_⟩
    · rw [← outcomeAt?_eq_none_iff, houtcome]
      simp
    · exact outcomeAt?_eq_none_iff.1 (hfront nearer hnearer)

/-- Unless the nearest one defies the lookup, it decides. -/
theorem isSilent_or_exists_decides (hregular : ∀ directory,
      workspace.IsNearest directories directory → ∀ fault, ¬ workspace.Defies directory fault) :
    (∀ directory ∈ directories, workspace.IsSilent directory) ∨
      ∃ directory outcome, workspace.IsNearest directories directory ∧
        workspace.Decides directory outcome := by
  obtain hsilent | ⟨directory, hnearest⟩ := workspace.isSilent_or_exists_isNearest directories
  · exact .inl hsilent
  · obtain hsilent | ⟨outcome, hdecides⟩ | ⟨fault, hdefies⟩ :=
      workspace.isSilent_or_decides_or_defies directory
    · exact absurd hsilent hnearest.1
    · exact .inr ⟨directory, outcome, hnearest, hdecides⟩
    · exact absurd hdefies (hregular directory hnearest fault)

theorem mem_of_isNearest (h : workspace.IsNearest directories directory) :
    directory ∈ directories := by
  obtain ⟨-, front, rest, rfl, -⟩ := h
  simp

theorem value_loadSettings_of_isNearest
    (hchain : workspace.lookupDirectories start = .ok directories)
    (h : workspace.IsNearest directories directory) {outcome : Except ConfigFault Settings}
    (houtcome : workspace.outcomeAt? directory = some outcome) :
    (workspace.loadSettings start).value = outcome := by
  rw [value_loadSettings hchain, findSome?_outcomeAt?_of_isNearest h, houtcome, Option.getD_some]

theorem value_loadSettings_of_isSilent
    (hchain : workspace.lookupDirectories start = .ok directories)
    (h : ∀ directory ∈ directories, workspace.IsSilent directory) :
    (workspace.loadSettings start).value = .ok {} := by
  rw [value_loadSettings hchain, findSome?_outcomeAt?_eq_none_iff.2 h, Option.getD_none]

/-- A lookup that nobody defies fails with a fault that is explained. -/
theorem isExplained_of_loadSettings (hchain : workspace.lookupDirectories start = .ok directories)
    (hregular : ∀ directory,
      workspace.IsNearest directories directory → ∀ fault, ¬ workspace.Defies directory fault)
    {fault : ConfigFault} (hfault : (workspace.loadSettings start).value = .error fault) :
    fault.isExplained = true := by
  obtain hsilent | ⟨directory, outcome, hnearest, hdecides⟩ := isSilent_or_exists_decides hregular
  · rw [value_loadSettings_of_isSilent hchain hsilent] at hfault
    cases hfault
  · rw [value_loadSettings_of_isNearest hchain hnearest (outcomeAt?_of_decides hdecides)] at hfault
    exact isExplained_of_decides (hfault ▸ hdecides)

/-- What lies above a directory that is not silent has no influence. -/
theorem findSome?_outcomeAt?_eq_of_evidence {front : List Path}
    (hspeaks : ¬ workspace.IsSilent directory)
    (hevidence : ∀ seen ∈ front ++ [directory], other.evidence seen = workspace.evidence seen)
    (rest above : List Path) :
    (front ++ directory :: above).findSome? other.outcomeAt? =
      (front ++ directory :: rest).findSome? workspace.outcomeAt? := by
  induction front with
  | nil =>
    have houtcome := outcomeAt?_eq_of_evidence (hevidence directory (by simp))
    cases hanswer : workspace.outcomeAt? directory with
    | none => exact absurd (outcomeAt?_eq_none_iff.1 hanswer) hspeaks
    | some outcome => simp [houtcome, hanswer]
  | cons nearer front ih =>
    have houtcome := outcomeAt?_eq_of_evidence (hevidence nearer (by simp))
    have hrest := ih fun seen hseen => hevidence seen (List.mem_cons_of_mem nearer hseen)
    rw [List.cons_append, List.cons_append, List.findSome?_cons, List.findSome?_cons, houtcome,
      hrest]

/-! ## Configurations -/

/-- A style given by hand replaces the style of the settings, but not their faults. -/
theorem value_configure (given : Option Style) :
    (workspace.configure (given.map Style.name) start).value =
      (workspace.loadSettings start).value.map fun settings =>
        .ofSettings { style := given.getD settings.style } := by
  simp only [configure, Logged.value_bind]
  cases (workspace.loadSettings start).value with
  | error fault => rfl
  | ok settings =>
    cases given with
    | none => rfl
    | some style =>
      simp only [Option.map_some, Logged.value_pure, Settings.ofWord_name]
      rfl

end Workspace

open Workspace

/-- **The nearest configuration that says something decides.**  Along the chain of directories in
which a lookup looks, the first one that is not silent is the one whose file settles the outcome;
what is above it does not matter, and if all are silent, the default settings apply.  As long as no
file defies the lookup, these are all cases, and all faults are explained.

A style given by hand does not change whether there is a configuration, and otherwise it is the
style of the settings and of every rule; without one they have the style that was looked up. -/
theorem loadSettings_nearest (workspace : Workspace) (start : Path) (directories : List Path)
    (hchain : workspace.lookupDirectories start = .ok directories) :
    (∀ directory outcome, workspace.IsNearest directories directory →
      workspace.Decides directory outcome → (workspace.loadSettings start).value = outcome) ∧
    (∀ directory form (entries : Toml.Table), workspace.IsNearest directories directory →
      workspace.HasEntry directory (.table form entries) →
      (∀ settings, (workspace.loadSettings start).value = .ok settings ↔
        entries.Grants settings.style) ∧
      ((∀ style, ¬ entries.Grants style) ↔ ∃ cause, (workspace.loadSettings start).value =
        .error (.invalid directory.configuration.text cause))) ∧
    ((∀ directory ∈ directories, workspace.IsSilent directory) →
      (workspace.loadSettings start).value = .ok {}) ∧
    ((∀ directory ∈ directories, ∀ fault, ¬ workspace.Defies directory fault) →
      ((∀ directory ∈ directories, workspace.IsSilent directory) ∨
        ∃ directory outcome, workspace.IsNearest directories directory ∧
          workspace.Decides directory outcome) ∧
      ∀ fault, (workspace.loadSettings start).value = .error fault → fault.isExplained = true) ∧
    (∀ (other : Workspace) (front rest above : List Path) (directory : Path),
      directories = front ++ directory :: rest → ¬ workspace.IsSilent directory →
      other.lookupDirectories start = .ok (front ++ directory :: above) →
      (∀ seen ∈ front ++ [directory], other.evidence seen = workspace.evidence seen) →
      (other.loadSettings start).value = (workspace.loadSettings start).value) ∧
    ∀ given : Option Style,
      (∀ fault, (workspace.configure (given.map Style.name) start).value = .error fault ↔
        (workspace.loadSettings start).value = .error fault) ∧
      ∀ settings, (workspace.loadSettings start).value = .ok settings →
        ∃ configuration,
          (workspace.configure (given.map Style.name) start).value = .ok configuration ∧
          configuration.settings.style = given.getD settings.style ∧
          configuration.rules = [namingRule (given.getD settings.style)] := by
  refine ⟨?_, ?_, value_loadSettings_of_isSilent hchain, ?_, ?_, ?_⟩
  · intro directory outcome hnearest hdecides
    exact value_loadSettings_of_isNearest hchain hnearest (outcomeAt?_of_decides hdecides)
  · intro directory form entries hnearest hentry
    rw [value_loadSettings_of_isNearest hchain hnearest (outcomeAt?_of_decides (.table hentry))]
    exact ⟨fun settings => Settings.validateFrom_ofTable_eq_ok_iff,
      Settings.forall_not_grants_iff⟩
  · intro hregular
    have hnearest (directory : Path) (h : workspace.IsNearest directories directory) :=
      hregular directory (mem_of_isNearest h)
    exact ⟨isSilent_or_exists_decides hnearest,
      fun fault => isExplained_of_loadSettings hchain hnearest⟩
  · rintro other front rest above directory rfl hspeaks hother hevidence
    rw [value_loadSettings hchain, value_loadSettings hother,
      findSome?_outcomeAt?_eq_of_evidence hspeaks hevidence]
  · intro given
    rw [value_configure]
    cases (workspace.loadSettings start).value with
    | error fault => simp [Except.map]
    | ok settings => simp [Except.map, Configuration.ofSettings]

/-- A configuration that grants a style other than the default. -/
def lenientConfiguration : String :=
  "[tool.memolint]\nenforced_style_for_leading_underscores = \"optional\""

/-- Some short configurations: about something else, lenient, empty and of a wrong form. -/
theorem read_configurations :
    Toml.read "[tool.other]" = some [("tool", .table .implied [("other", .table .declared [])])] ∧
      Toml.read lenientConfiguration = some [("tool", .table .implied [("memolint",
        .table .declared [("enforced_style_for_leading_underscores", .text "optional")])])] ∧
      Toml.read "[tool.memolint]" =
        some [("tool", .table .implied [("memolint", .table .declared [])])] ∧
      Toml.read "[[tool]]" = some [("tool", .array true [.table .declared []])] ∧
      Toml.read "[[" = none := by
  refine ⟨?_, ?_, ?_, ?_, ?_⟩ <;> cbv

/-- Directories that each have a configuration file: the outermost is malformed, the one in it
grants a style that is not the default, and of the two innermost, one is about something else and
the other has an empty settings table. -/
def layeredWorkspace : Workspace where
  files := { root := [
    (configurationName, .file (Text.Utf8.encode "[[")),
    ("app", .directory [
      (configurationName, .file (Text.Utf8.encode lenientConfiguration)),
      ("lib", .directory [(configurationName, .file (Text.Utf8.encode "[tool.other]"))]),
      ("test", .directory [(configurationName, .file (Text.Utf8.encode "[tool.memolint]"))])])] }
  directory := Path.rootDirectory
  parse := Parsed.blank

/-- What the files say, along two chains of directories. -/
theorem speaks_layeredWorkspace :
    layeredWorkspace.lookupDirectories ⟨.root, ["app", "lib"]⟩ =
        .ok [⟨.root, ["app", "lib"]⟩, ⟨.root, ["app"]⟩, ⟨.root, []⟩] ∧
      layeredWorkspace.IsSilent ⟨.root, ["app", "lib"]⟩ ∧
      layeredWorkspace.HasEntry ⟨.root, ["app"]⟩
        (.table .declared [(Settings.styleKey, .text "optional")]) ∧
      layeredWorkspace.lookupDirectories ⟨.root, ["app", "test"]⟩ =
        .ok [⟨.root, ["app", "test"]⟩, ⟨.root, ["app"]⟩, ⟨.root, []⟩] ∧
      layeredWorkspace.HasEntry ⟨.root, ["app", "test"]⟩ (.table .declared []) := by
  have hcontents :
      layeredWorkspace.HasContent ⟨.root, ["app", "lib"]⟩ (Text.Utf8.encode "[tool.other]") ∧
      layeredWorkspace.HasContent ⟨.root, ["app"]⟩ (Text.Utf8.encode lenientConfiguration) ∧
      layeredWorkspace.HasContent ⟨.root, ["app", "test"]⟩
        (Text.Utf8.encode "[tool.memolint]") := by
    refine ⟨?_, ?_, ?_⟩ <;> cbv
  obtain ⟨hother, hlenient, hempty, -, -⟩ := read_configurations
  have hlib := hasDocument_of_encode hcontents.1 hother
  have happ := hasDocument_of_encode hcontents.2.1 hlenient
  have htest := hasDocument_of_encode hcontents.2.2 hempty
  refine ⟨?_, .noEntry hlib rfl rfl, ⟨_, _, _, happ, rfl, rfl⟩, ?_, ⟨_, _, _, htest, rfl, rfl⟩⟩ <;>
    cbv

/-- Where the innermost file is silent, the one above it decides with the style that it grants, and
the malformed one is never looked at.  An empty table decides as well, for the default. -/
theorem loadSettings_layeredWorkspace :
    layeredWorkspace.lookupDirectories ⟨.root, ["app", "lib"]⟩ =
        .ok [⟨.root, ["app", "lib"]⟩, ⟨.root, ["app"]⟩, ⟨.root, []⟩] ∧
      layeredWorkspace.IsNearest [⟨.root, ["app", "lib"]⟩, ⟨.root, ["app"]⟩, ⟨.root, []⟩]
        ⟨.root, ["app"]⟩ ∧
      (layeredWorkspace.loadSettings ⟨.root, ["app", "lib"]⟩).value = .ok ⟨.optional⟩ ∧
      (∃ configuration,
        (layeredWorkspace.configure (some "required") ⟨.root, ["app", "lib"]⟩).value =
            .ok configuration ∧
          configuration.settings.style = .required ∧
          configuration.rules = [namingRule .required]) ∧
      layeredWorkspace.IsNearest [⟨.root, ["app", "test"]⟩, ⟨.root, ["app"]⟩, ⟨.root, []⟩]
        ⟨.root, ["app", "test"]⟩ ∧
      (layeredWorkspace.loadSettings ⟨.root, ["app", "test"]⟩).value = .ok ⟨.disallowed⟩ := by
  obtain ⟨hlib, hsilent, hentry, htest, hempty⟩ := speaks_layeredWorkspace
  have hnearest : layeredWorkspace.IsNearest
      [⟨.root, ["app", "lib"]⟩, ⟨.root, ["app"]⟩, ⟨.root, []⟩] ⟨.root, ["app"]⟩ :=
    ⟨not_isSilent_of_decides (.table hentry), [⟨.root, ["app", "lib"]⟩], [⟨.root, []⟩], rfl,
      by simpa using hsilent⟩
  have hnearest' : layeredWorkspace.IsNearest
      [⟨.root, ["app", "test"]⟩, ⟨.root, ["app"]⟩, ⟨.root, []⟩] ⟨.root, ["app", "test"]⟩ :=
    ⟨not_isSilent_of_decides (.table hempty), [], _, rfl, by simp⟩
  obtain ⟨-, hgranted, -, -, -, hconfigure⟩ := loadSettings_nearest layeredWorkspace _ _ hlib
  obtain ⟨-, hgranted', -⟩ := loadSettings_nearest layeredWorkspace _ _ htest
  have hsettings := ((hgranted _ _ _ hnearest hentry).1 ⟨.optional⟩).2
    (Toml.Table.grants_singleton .optional)
  have hdefaults := ((hgranted' _ _ _ hnearest' hempty).1 ⟨.disallowed⟩).2
    (.byDefault fun _ => rfl)
  exact ⟨hlib, hnearest, hsettings, (hconfigure (some .required)).2 _ hsettings, hnearest',
    hdefaults⟩

/-! ## Faults and exit codes -/

namespace Workspace

variable {workspace : Workspace}

/-- A run without settings ends with an exit code that tells whether the fault is explained. -/
theorem exitCode_run_of_fault {width : Nat} {args : List String} {request : Request}
    {fault : ConfigFault} (hrequest : workspace.request args = .ok request)
    (hfault : (workspace.loadSettings request.target).value = .error fault) :
    (workspace.run width args).value.exitCode = if fault.isExplained then 2 else 1 := by
  simp only [run, hrequest, perform, Logged.value_bind, value_configure, hfault]
  simp only [Except.map, Logged.value_pure, Outcome.ofConfigFault]
  split <;> rfl

theorem value_run_of_files {width : Nat} {args : List String} {request : Request}
    {settings : Settings} {files : List Path} (hrequest : workspace.request args = .ok request)
    (hsettings : (workspace.loadSettings request.target).value = .ok settings)
    (hfiles : (workspace.targetFiles request.target).value = .ok files) :
    (workspace.run width args).value =
      workspace.present width request files
        (workspace.analyze [namingRule (request.style.getD settings.style)] files).value := by
  simp only [run, hrequest, perform, Logged.value_bind, value_configure, hsettings]
  simp only [Except.map, Logged.value_bind, hfiles]
  rfl

/-- A run whose findings are presented without a fault ends with their verdict, and a run that
prints plain lines is one. -/
theorem exitCode_present (width : Nat) (request : Request) (files : List Path)
    (findings : List Finding) :
    ((workspace.present width request files findings).fault = none →
      (workspace.present width request files findings).exitCode = verdict findings) ∧
    (request.pretty = false → (workspace.present width request files findings).fault = none) := by
  unfold present
  by_cases hpretty : request.pretty = true
  · simp only [hpretty, if_true]
    refine ⟨?_, fun h => by cases h⟩
    rcases Report.render width (workspace.report findings files request.verbose).1 with
      ⟨output, _ | _⟩
    · cases (workspace.report findings files request.verbose).2 <;> simp [Outcome.ofFault]
    · simp [Outcome.ofFault]
  · simp [hpretty]

end Workspace

/-- **When failures are explained.**  A lookup that fails is explained as an error of the
configuration unless the nearest file that is not silent defies it, by bytes that are no text, by a
value for all tools that is no table, or by being inaccessible.  A run ends with the exit code 2 if
the fault is explained and with 1 if it is not; if there are settings and the findings can be
presented, which they always can as plain lines, it ends with 1 exactly if there are any. -/
theorem loadSettings_explained_iff (workspace : Workspace) (start : Path) (directories : List Path)
    (hchain : workspace.lookupDirectories start = .ok directories) :
    ((∀ fault, (workspace.loadSettings start).value = .error fault → fault.isExplained = true) ↔
      ∀ directory, workspace.IsNearest directories directory →
        ∀ fault, ¬ workspace.Defies directory fault) ∧
    ∀ width args request, workspace.request args = .ok request → request.target = start →
      (∀ fault, (workspace.loadSettings start).value = .error fault →
        (workspace.run width args).value.exitCode = if fault.isExplained then 2 else 1) ∧
      ∀ settings files, (workspace.loadSettings start).value = .ok settings →
        (workspace.targetFiles start).value = .ok files →
        ((workspace.run width args).value.fault = none →
          ((workspace.run width args).value.exitCode = 1 ↔
            (workspace.analyze [namingRule (request.style.getD settings.style)] files).value ≠
              [])) ∧
        (request.pretty = false → (workspace.run width args).value.fault = none) := by
  refine ⟨⟨?_, ?_⟩, ?_⟩
  · intro hexplained directory hnearest fault hdefies
    have hvalue := value_loadSettings_of_isNearest hchain hnearest
      (outcomeAt?_of_defies hdefies)
    have hfault := hexplained fault hvalue
    rw [isExplained_of_defies hdefies] at hfault
    cases hfault
  · intro hregular fault
    exact isExplained_of_loadSettings hchain hregular
  · rintro width args request hrequest rfl
    refine ⟨fun fault hfault => exitCode_run_of_fault hrequest hfault, ?_⟩
    intro settings files hsettings hfiles
    rw [value_run_of_files hrequest hsettings hfiles]
    obtain ⟨hverdict, hplain⟩ := workspace.exitCode_present width request files
      (workspace.analyze [namingRule (request.style.getD settings.style)] files).value
    refine ⟨fun hnone => ?_, hplain⟩
    rw [hverdict hnone, verdict]
    split <;> simp_all

/-- A directory with a configuration file and an empty source. -/
def configuredWorkspace (content : Bytes) : Workspace where
  files := { root := [(configurationName, .file content), ("a.rb", .file [])] }
  directory := Path.rootDirectory
  parse := Parsed.blank

section

variable (content : Bytes)

theorem request_configuredWorkspace :
    (configuredWorkspace content).request ["analyze", "a.rb"] =
      .ok { target := ⟨.root, ["a.rb"]⟩ } := by
  cbv

theorem lookupDirectories_configuredWorkspace :
    (configuredWorkspace content).lookupDirectories ⟨.root, ["a.rb"]⟩ = .ok [⟨.root, []⟩] := by
  cbv

theorem hasContent_configuredWorkspace :
    (configuredWorkspace content).HasContent ⟨.root, []⟩ content := by
  cbv

theorem analyze_configuredWorkspace (style : Style) :
    ((configuredWorkspace content).targetFiles ⟨.root, ["a.rb"]⟩).value =
        .ok [⟨.root, ["a.rb"]⟩] ∧
      ((configuredWorkspace content).analyze [namingRule style] [⟨.root, ["a.rb"]⟩]).value =
        [] := by
  constructor <;> cbv

variable {content}

/-- Where there is one directory, its file answers the lookup. -/
theorem loadSettings_configuredWorkspace {outcome : Except ConfigFault Settings}
    (h : (configuredWorkspace content).outcomeAt? ⟨.root, []⟩ = some outcome) :
    ((configuredWorkspace content).loadSettings ⟨.root, ["a.rb"]⟩).value = outcome := by
  rw [value_loadSettings (lookupDirectories_configuredWorkspace content)]
  simp [h]

end

/-- A malformed file is explained, and the run that it ends has the exit code 2. -/
theorem loadSettings_explained_malformed :
    (configuredWorkspace (Text.Utf8.encode "[[")).lookupDirectories ⟨.root, ["a.rb"]⟩ =
        .ok [⟨.root, []⟩] ∧
      (∀ fault, ¬ (configuredWorkspace (Text.Utf8.encode "[[")).Defies ⟨.root, []⟩ fault) ∧
      ((configuredWorkspace (Text.Utf8.encode "[[")).run 80 ["analyze", "a.rb"]).value.exitCode =
        2 := by
  have hchain := lookupDirectories_configuredWorkspace (Text.Utf8.encode "[[")
  have hdecides : (configuredWorkspace (Text.Utf8.encode "[[")).Decides ⟨.root, []⟩
      (.error (.unreadable (Path.configuration ⟨.root, []⟩))) := by
    obtain ⟨-, -, -, -, hread⟩ := read_configurations
    exact .malformed (hasContent_configuredWorkspace _) (Text.Utf8.decode?_encode "[[") hread
  have hvalue := loadSettings_configuredWorkspace (outcomeAt?_of_decides hdecides)
  have hspeaks := not_isSilent_of_decides hdecides
  obtain ⟨hexplained, hrun⟩ := loadSettings_explained_iff _ _ _ hchain
  have hregular := hexplained.1 fun fault hfault => by
    rw [hvalue] at hfault
    cases hfault
    rfl
  refine ⟨hchain, hregular _ ⟨hspeaks, [], [], rfl, by simp⟩, ?_⟩
  exact (hrun 80 _ _ (request_configuredWorkspace _) rfl).1 _ hvalue

/-- Not every failure is explained.  A file that is no text, or in which the value for all tools is
an array, ends a run with the exit code 1, though there is nothing to find in the sources. -/
theorem loadSettings_unexplained :
    ((configuredWorkspace [0xFF]).loadSettings ⟨.root, ["a.rb"]⟩).value = .error .notUtf8 ∧
      ((configuredWorkspace [0xFF]).run 80 ["analyze", "a.rb"]).value.exitCode = 1 ∧
      ((configuredWorkspace (Text.Utf8.encode "[[tool]]")).loadSettings ⟨.root, ["a.rb"]⟩).value =
        .error .toolsNotTable ∧
      ((configuredWorkspace (Text.Utf8.encode "[[tool]]")).run 80
        ["analyze", "a.rb"]).value.exitCode = 1 ∧
      ConfigFault.notUtf8.isExplained = false ∧ ConfigFault.toolsNotTable.isExplained = false ∧
      ∀ content style,
        ((configuredWorkspace content).targetFiles ⟨.root, ["a.rb"]⟩).value =
            .ok [⟨.root, ["a.rb"]⟩] ∧
          ((configuredWorkspace content).analyze [namingRule style] [⟨.root, ["a.rb"]⟩]).value =
            [] := by
  have hbytes : (configuredWorkspace [0xFF]).Defies ⟨.root, []⟩ .notUtf8 :=
    .notUtf8 (hasContent_configuredWorkspace _) (by cbv)
  have hdocument : (configuredWorkspace (Text.Utf8.encode "[[tool]]")).HasDocument ⟨.root, []⟩
      [("tool", .array true [.table .declared []])] :=
    hasDocument_of_encode (hasContent_configuredWorkspace _) read_configurations.2.2.2.1
  have hvalue := loadSettings_configuredWorkspace (outcomeAt?_of_defies hbytes)
  have hvalue' := loadSettings_configuredWorkspace
    (outcomeAt?_of_defies (.toolsNotTable hdocument rfl fun _ _ => Toml.Value.noConfusion))
  refine ⟨hvalue, exitCode_run_of_fault (request_configuredWorkspace _) hvalue, hvalue',
    exitCode_run_of_fault (request_configuredWorkspace _) hvalue', rfl, rfl,
    analyze_configuredWorkspace⟩

end MemoAudit
