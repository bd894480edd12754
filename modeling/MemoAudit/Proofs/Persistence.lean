import Mathlib
import MemoAudit.Proofs.Complaints
import MemoAudit.Proofs.Growth
import MemoAudit.Proofs.Precedence

/-!
# What stays when a file system grows

When files are added to a file system, a command line asks for the same, because its target is still
there (`Workspace.request_withFiles`), and as a rule the same settings apply.

New files do not have the name of configuration files.  But a configuration file may be a link, and
a link that led nowhere may lead to a new file.  This is the only way in which the settings can
change (`Workspace.RevivesConfiguration`): where a configuration file was found, it is found with
the same content, and where there was none, nothing but a directory can have been added under its
name (`Workspace.value_loadSettings_withFiles`).
-/

namespace MemoAudit

/-- The text of a path is no longer than that of a path below it. -/
theorem Path.utf8ByteSize_text_configuration (directory : Path) :
    directory.text.utf8ByteSize ≤ directory.configuration.text.utf8ByteSize := by
  obtain ⟨anchor, parts⟩ := directory
  cases parts with
  | nil => cases anchor <;> decide
  | cons part rest =>
    rw [configuration, utf8ByteSize_text_child (by simp)]
    omega

theorem Path.isTooLong_of_configuration {directory : Path}
    (h : directory.configuration.isTooLong = false) : directory.isTooLong = false := by
  have hsize := directory.utf8ByteSize_text_configuration
  simp only [isTooLong, decide_eq_false_iff_not] at h ⊢
  omega

namespace Workspace

/-- The workspace with other files. -/
def withFiles (workspace : Workspace) (files : FileSystem) : Workspace := { workspace with files }

variable {workspace other : Workspace} {path : Path}

/-! ## What depends on an outline -/

section

variable {entry entry' : Entry} (hfind : workspace.find path = .ok entry)
  (hfind' : other.find path = .ok entry') (houtline : entry'.outline = entry.outline)

include hfind hfind' houtline

theorem read_eq_of_outline : other.read path = workspace.read path := by
  simp only [read, hfind, hfind']
  cases entry with
  | directory entries permissions =>
    obtain ⟨others, rfl⟩ := Entry.exists_of_outline_eq_directory houtline
    rfl
  | file | link | special => rw [Entry.eq_of_outline_eq rfl houtline]

theorem isFile_eq_of_outline : other.isFile path = workspace.isFile path := by
  have hsame : entry'.isFile = entry.isFile := by
    rw [← Entry.isFile_outline, houtline, Entry.isFile_outline]
  simp only [isFile, entry?, hfind, hfind', Except.map, Option.any_some, hsame]

end

theorem evidence_eq_of_error {directory : Path} {fault : AccessFault}
    (hfind : workspace.find directory.configuration = .error fault)
    (hfind' : other.find directory.configuration = .error fault) :
    other.evidence directory = workspace.evidence directory := by
  simp only [evidence, isFile, entry?, read, hfind, hfind']

/-! ## What is asked for -/

section

variable {grown : FileSystem} (hgrows : workspace.files.GrowsTo grown)
  (hfiles : workspace.files.IsSound) (hgrown : grown.IsSound)

include hgrows hgrown

theorem exists_find_withFiles {entry : Entry} (hfind : workspace.find path = .ok entry) :
    ∃ entry', (workspace.withFiles grown).find path = .ok entry' ∧
      entry'.outline = entry.outline :=
  hgrows.exists_find hgrown hfind

include hfiles

theorem target_withFiles {given : String} (h : workspace.target given = .ok path) :
    (workspace.withFiles grown).target given = .ok path := by
  unfold target at h ⊢
  cases hresolve : workspace.resolve (Path.ofString given) with
  | error fault => cases fault <;> simp [hresolve] at h
  | ok real =>
    simp only [hresolve] at h
    cases hfind : workspace.find real with
    | error fault => simp [hfind] at h
    | ok entry =>
      obtain ⟨entry', hfind', houtline⟩ := exists_find_withFiles hgrows hgrown hfind
      have hresolve' : (workspace.withFiles grown).resolve (Path.ofString given) = .ok real :=
        hgrows.resolve_eq hfiles hgrown hresolve hfind
      simp only [hfind] at h
      simp only [hresolve', hfind']
      cases entry with
      | directory entries permissions =>
        obtain ⟨others, rfl⟩ := Entry.exists_of_outline_eq_directory houtline
        obtain ⟨list, pass⟩ := permissions
        cases list <;> exact h
      | file | link | special =>
        obtain rfl := Entry.eq_of_outline_eq rfl houtline
        exact h

/-- A command line asks for the same when files are added. -/
theorem request_withFiles {args : List String} {request : Request}
    (h : workspace.request args = .ok request) :
    (workspace.withFiles grown).request args = .ok request := by
  obtain ⟨arguments, hread, h⟩ := exists_of_bind_eq_ok h
  obtain ⟨style, hstyle, h⟩ := exists_of_bind_eq_ok h
  have hrequest : (workspace.withFiles grown).request args =
      arguments.toRequest (workspace.withFiles grown).target := by
    rw [Workspace.request, hread]
    rfl
  rw [hrequest, Arguments.toRequest, hstyle]
  cases hpositionals : arguments.positionals with
  | nil =>
    rw [hpositionals] at h
    cases h
  | cons given extra =>
    rw [hpositionals] at h
    obtain ⟨path, htarget, h⟩ := exists_of_bind_eq_ok h
    have htarget' := target_withFiles hgrows hfiles hgrown htarget
    change (workspace.withFiles grown).target given >>= _ = _
    rw [htarget']
    exact h

end

/-! ## Configuration -/

/-- The configuration file of a directory is a link that leads nowhere. -/
def HasDeadConfiguration (workspace : Workspace) (directory : Path) : Prop :=
  ∃ entries permissions target, workspace.find directory = .ok (.directory entries permissions) ∧
    entries.lookup configurationName = some (.link target) ∧
    workspace.find directory.configuration = .error .notFound

/-- On the way up from a path there is a configuration file that is a link and leads nowhere, but in
the other workspace it is a file, or the system refuses to say what it is. -/
def RevivesConfiguration (workspace other : Workspace) (start : Path) : Prop :=
  ∃ directories, workspace.lookupDirectories start = .ok directories ∧
    ∃ directory ∈ directories, workspace.HasDeadConfiguration directory ∧
      other.isFile directory.configuration ≠ .ok false

/-- Locating a path comes to an entry. -/
def Reaches (workspace : Workspace) (path : Path) (reached : Reached) : Prop :=
  workspace.files.locate linkLimit [] (path.within workspace.directory).parts = .ok reached

theorem find_below {reached : Reached} (hreached : workspace.Reaches path reached)
    {names : List String} (hshort : (path.below names).isTooLong = false) :
    workspace.find (path.below names) =
      (workspace.files.locate reached.links reached.place names).map Reached.entry := by
  rw [find, FileSystem.find_below hreached, hshort]
  rfl

theorem isFile_eq_false_of_absence {fault : AccessFault} (h : workspace.find path = .error fault)
    (hfault : fault.isAbsence = true) : workspace.isFile path = .ok false := by
  simp only [isFile, entry?, h, hfault, if_true]
  rfl

theorem isFile_eq_false_of_directory {entry : Entry} (h : workspace.find path = .ok entry)
    (hentry : entry.isDirectory = true) : workspace.isFile path = .ok false := by
  cases entry with
  | directory entries permissions =>
    simp only [isFile, entry?, h]
    rfl
  | file | link | special => cases hentry

section

variable {grown : FileSystem} {directory : Path} {reached : Reached}
  {entries : Directory} {permissions : Permissions}

theorem exists_reaches_withFiles (hgrows : workspace.files.GrowsTo grown) (hgrown : grown.IsSound)
    (hreached : workspace.Reaches path reached) :
    ∃ entry, (workspace.withFiles grown).Reaches path { reached with entry } ∧
      entry.outline = reached.entry.outline := by
  have hpersists :=
    hgrows.persists_locate hgrown linkLimit [] (path.within workspace.directory).parts
  unfold Reaches at hreached ⊢
  change ∃ entry, grown.locate linkLimit [] (path.within workspace.directory).parts = _ ∧ _
  rw [hreached] at hpersists
  generalize grown.locate linkLimit [] (path.within workspace.directory).parts = after at hpersists
  cases hpersists with
  | found houtline => exact ⟨_, rfl, houtline⟩

/-- Where nothing is under its name, there is no configuration file. -/
theorem isFile_configuration_of_none (hreached : workspace.Reaches directory reached)
    (hentry : reached.entry = .directory entries permissions) (hpass : permissions.pass = true)
    (hnone : entries.lookup configurationName = none)
    (hshort : directory.configuration.isTooLong = false) :
    workspace.isFile directory.configuration = .ok false := by
  have hhere : workspace.files.at? reached.place = some (.directory entries permissions) := by
    rw [← hentry]
    exact FileSystem.at?_of_locate hreached
  have hfind : workspace.find directory.configuration =
      (workspace.files.locate reached.links reached.place [configurationName]).map Reached.entry :=
    find_below hreached hshort
  obtain ⟨hempty, hdot, hdots, -⟩ : IsEntryName configurationName := by decide
  rw [FileSystem.locate_missing hhere [] hpass hempty hdot hdots
    ((FileSystem.at?_concat hhere configurationName).trans hnone)] at hfind
  exact isFile_eq_false_of_absence hfind (by decide)

theorem isFile_configuration_root (hnone : workspace.files.root.lookup configurationName = none) :
    workspace.isFile (Path.configuration Path.rootDirectory) = .ok false := by
  have hroot : workspace.files.at? [] = some (.directory workspace.files.root) := rfl
  have hreached : workspace.Reaches Path.rootDirectory
      ⟨[], .directory workspace.files.root, linkLimit⟩ := by
    change workspace.files.locate linkLimit [] [] = _
    rw [FileSystem.locate.eq_def, hroot]
  exact isFile_configuration_of_none hreached rfl rfl hnone (by decide)

/-- Where there was no configuration file, there is none afterwards. -/
theorem isFile_configuration_of_absent (hgrows : workspace.files.GrowsTo grown)
    (hgrown : grown.IsSound) (hreached : workspace.Reaches directory reached)
    (hentry : reached.entry = .directory entries permissions)
    (hpass : permissions.pass = true) (habsent : entries.lookup configurationName = none)
    (hshort : directory.configuration.isTooLong = false) :
    (workspace.withFiles grown).isFile directory.configuration = .ok false := by
  obtain ⟨entry', hreached', houtline⟩ := exists_reaches_withFiles hgrows hgrown hreached
  rw [hentry] at houtline
  obtain ⟨others, rfl⟩ := Entry.exists_of_outline_eq_directory houtline
  have hhere : workspace.files.at? reached.place = some (.directory entries permissions) := by
    rw [← hentry]
    exact FileSystem.at?_of_locate hreached
  have hhere' : grown.at? reached.place = some (.directory others permissions) :=
    FileSystem.at?_of_locate hreached'
  cases hadded : others.lookup configurationName with
  | none => exact isFile_configuration_of_none hreached' rfl hpass hadded hshort
  | some entry =>
    have hadded := (FileSystem.at?_concat hhere' configurationName).trans hadded
    have hfind' : (workspace.withFiles grown).find directory.configuration =
        (grown.locate reached.links reached.place [configurationName]).map Reached.entry :=
      find_below hreached' hshort
    obtain ⟨hempty, hdot, hdots, -⟩ : IsEntryName configurationName := by decide
    -- Only a directory can have been added under this name.
    have hnone := (FileSystem.at?_concat hhere configurationName).trans habsent
    have hdirectory : entry.isDirectory = true := by
      simpa using hgrows.added _ entry hnone hadded
    have hlink (target : String) : entry ≠ .link target := by
      rintro rfl
      cases hdirectory
    rw [FileSystem.locate_name hhere' [] hpass hempty hdot hdots hadded hlink,
      FileSystem.locate.eq_def, hadded] at hfind'
    exact isFile_eq_false_of_directory hfind' hdirectory

/-- A configuration file that could not be found is either absent or a link that leads nowhere. -/
theorem isFile_configuration_of_notFound (hgrows : workspace.files.GrowsTo grown)
    (hgrown : grown.IsSound) (hreached : workspace.Reaches directory reached)
    (hentry : reached.entry = .directory entries permissions)
    (hfind : workspace.find directory.configuration = .error .notFound)
    (hdead : workspace.HasDeadConfiguration directory →
      (workspace.withFiles grown).isFile directory.configuration = .ok false) :
    (workspace.withFiles grown).isFile directory.configuration = .ok false := by
  have hshort : directory.configuration.isTooLong = false := by
    by_contra hlong
    rw [find, FileSystem.find, if_pos (by simpa using hlong)] at hfind
    cases hfind
  have hhere : workspace.files.at? reached.place = some (.directory entries permissions) := by
    rw [← hentry]
    exact FileSystem.at?_of_locate hreached
  have hbelow : workspace.find directory.configuration = _ := find_below hreached hshort
  rw [hfind] at hbelow
  obtain ⟨hempty, hdot, hdots, -⟩ : IsEntryName configurationName := by decide
  have hpass : permissions.pass = true := by
    by_contra hsealed
    rw [FileSystem.locate_denied hhere [] (by simpa using hsealed) hempty] at hbelow
    cases hbelow
  cases hlookup : entries.lookup configurationName with
  | none =>
    exact isFile_configuration_of_absent hgrows hgrown hreached hentry hpass hlookup hshort
  | some entry =>
    by_cases hlink : ∃ target, entry = .link target
    · obtain ⟨target, rfl⟩ := hlink
      have hdirectory : workspace.find directory = .ok (.directory entries permissions) := by
        rw [find, FileSystem.find, Path.isTooLong_of_configuration hshort, hreached, ← hentry]
        rfl
      exact hdead ⟨entries, permissions, target, hdirectory, hlookup, hfind⟩
    · -- Anything else would have been found.
      have hat := (FileSystem.at?_concat hhere configurationName).trans hlookup
      rw [FileSystem.locate_name hhere [] hpass hempty hdot hdots hat (by simpa using hlink),
        FileSystem.locate.eq_def, hat] at hbelow
      cases hbelow

/-- What follows from the configuration file of a directory does not change. -/
theorem outcomeAt?_withFiles (hgrows : workspace.files.GrowsTo grown) (hgrown : grown.IsSound)
    (hreached : workspace.Reaches directory reached)
    (hentry : reached.entry = .directory entries permissions)
    (hdead : workspace.HasDeadConfiguration directory →
      (workspace.withFiles grown).isFile directory.configuration = .ok false) :
    (workspace.withFiles grown).outcomeAt? directory = workspace.outcomeAt? directory := by
  cases hfind : workspace.find directory.configuration with
  | ok entry =>
    obtain ⟨entry', hfind', houtline⟩ := exists_find_withFiles hgrows hgrown hfind
    exact outcomeAt?_eq_of_evidence (Prod.ext (isFile_eq_of_outline hfind hfind' houtline)
      (read_eq_of_outline hfind hfind' houtline))
  | error fault =>
    by_cases hfault : fault = .notFound
    · subst hfault
      have hbefore := isFile_eq_false_of_absence hfind (by decide)
      have hafter :=
        isFile_configuration_of_notFound hgrows hgrown hreached hentry hfind hdead
      rw [outcomeAt?_of_isSilent (.absent hbefore), outcomeAt?_of_isSilent (.absent hafter)]
    · have hfind' : (workspace.withFiles grown).find directory.configuration = .error fault :=
        hgrows.find_error hgrown hfind hfault
      exact outcomeAt?_eq_of_evidence (evidence_eq_of_error hfind hfind')

/-- On the way to a directory there are directories. -/
theorem exists_reaches_of_below {names : List String}
    (hreached : workspace.Reaches (directory.below names) reached)
    (hdirectory : reached.entry.isDirectory = true) :
    ∃ between : Reached, workspace.Reaches directory between ∧
      between.entry.isDirectory = true := by
  unfold Reaches at hreached ⊢
  rw [Path.parts_within_below, FileSystem.locate_append] at hreached
  obtain ⟨between, hbetween, hrest⟩ := exists_of_bind_eq_ok hreached
  refine ⟨between, hbetween, ?_⟩
  have hat := FileSystem.at?_of_locate hbetween
  cases names with
  | nil =>
    rw [FileSystem.locate.eq_def, hat] at hrest
    cases hrest
    exact hdirectory
  | cons name rest =>
    by_contra hfile
    rw [FileSystem.locate_notDirectory hat (by simpa using hfile)] at hrest
    cases hrest

theorem exists_below_of_mem_selfAndParents {real : Path} (h : directory ∈ real.selfAndParents) :
    ∃ names, real = directory.below names := by
  obtain ⟨above, -, rfl⟩ := List.mem_map.1 h
  exact ⟨real.parts.drop (real.parts.length - above), by simp [Path.below]⟩

theorem lookupDirectories_eq {start real : Path} {tree : Entry}
    (hreal : workspace.resolve start = .ok real) (hfind : workspace.find real = .ok tree)
    (hdirectory : tree.isDirectory = true) :
    workspace.lookupDirectories start = .ok real.selfAndParents := by
  have hfile := isFile_eq_false_of_directory hfind hdirectory
  rw [lookupDirectories, hreal]
  change (workspace.isFile real).mapError _ >>= _ = _
  rw [hfile]
  rfl

theorem findSome?_outcomeAt?_congr {directories : List Path}
    (h : ∀ directory ∈ directories, other.outcomeAt? directory = workspace.outcomeAt? directory) :
    directories.findSome? other.outcomeAt? = directories.findSome? workspace.outcomeAt? := by
  induction directories with
  | nil => rfl
  | cons directory rest ih =>
    rw [List.findSome?_cons, List.findSome?_cons, h directory List.mem_cons_self,
      ih fun other hother => h other (List.mem_cons_of_mem directory hother)]

/-- The settings that apply at a directory are the same, unless a configuration file is revived. -/
theorem value_loadSettings_withFiles (hgrows : workspace.files.GrowsTo grown)
    (hfiles : workspace.files.IsSound) (hgrown : grown.IsSound) {start real : Path} {tree : Entry}
    (hreal : workspace.resolve start = .ok real) (hfind : workspace.find real = .ok tree)
    (hdirectory : tree.isDirectory = true)
    (hdead : ¬ workspace.RevivesConfiguration (workspace.withFiles grown) start) :
    ((workspace.withFiles grown).loadSettings start).value =
      (workspace.loadSettings start).value := by
  have hreal' : (workspace.withFiles grown).resolve start = .ok real :=
    hgrows.resolve_eq hfiles hgrown hreal hfind
  obtain ⟨tree', hfind', houtline⟩ := exists_find_withFiles hgrows hgrown hfind
  have hdirectory' : tree'.isDirectory = true := by
    rw [← Entry.isDirectory_outline, houtline, Entry.isDirectory_outline, hdirectory]
  have hchain := lookupDirectories_eq hreal hfind hdirectory
  rw [value_loadSettings hchain,
    value_loadSettings (lookupDirectories_eq hreal' hfind' hdirectory')]
  refine congrArg (Option.getD · _) (findSome?_outcomeAt?_congr fun directory hmem => ?_)
  obtain ⟨names, rfl⟩ := exists_below_of_mem_selfAndParents hmem
  obtain ⟨reached, hreached, rfl⟩ := FileSystem.exists_locate_of_find hfind
  obtain ⟨between, hbetween, hentry⟩ := exists_reaches_of_below hreached hdirectory
  cases hinner : between.entry with
  | directory entries permissions =>
    refine outcomeAt?_withFiles hgrows hgrown hbetween hinner fun h => ?_
    by_contra hfile
    exact hdead ⟨_, hchain, directory, hmem, h, hfile⟩
  | file | link | special =>
    rw [hinner] at hentry
    cases hentry

end

end Workspace

end MemoAudit
