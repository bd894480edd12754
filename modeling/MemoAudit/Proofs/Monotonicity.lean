import Mathlib
import MemoAudit.Proofs.OrderIndependence
import MemoAudit.Proofs.Persistence
import MemoAudit.Proofs.Recognition

/-!
# More files, more findings

When files are added to a directory that is analysed, what was found before is found again, in the
same order, and whatever is found besides is about the new files.

That a run asks for the same and has the same settings is the subject of `Proofs/Persistence`.  What
is left is that a search finds the files that it found before, which are read as they were, and
besides some that could not be found (`Workspace.mem_and_read_eq_of_mem`,
`Workspace.find_of_not_mem`); that the contribution of a file does not depend on other files
(`Workspace.filter_contributions`); and that a stable sort commutes with leaving findings out
(`Finding.filter_sort`).

The main result, `run_growsTo`, has a condition on configuration files that are links, and the last
example shows that it cannot be left out.
-/

namespace MemoAudit

/-- Sorting and leaving findings out can be exchanged. -/
theorem Finding.filter_sort (findings : List Finding) (keeps : Finding → Bool) :
    (Finding.sort findings).filter keeps = Finding.sort (findings.filter keeps) := by
  have hsort := Finding.isStableSort_sort findings
  have hfiltered := Finding.isStableSort_sort (findings.filter keeps)
  refine Finding.eq_of_filter_eq (hsort.ordered.filter keeps) hfiltered.ordered fun key => ?_
  rw [hfiltered.stable, List.filter_comm, hsort.stable, List.filter_comm]

theorem flatMap_filter {α β : Type} (as : List α) (keeps : α → Bool) (f : α → List β) :
    (as.filter keeps).flatMap f = as.flatMap fun a => if keeps a then f a else [] := by
  induction as with
  | nil => rfl
  | cons a rest ih => cases h : keeps a <;> simp [h, ih]

/-- The outcome of a run that comes to its end and prints plain lines. -/
def Outcome.ofFindings (findings : List Finding) : Outcome where
  exitCode := verdict findings
  output := plainLines findings

/-- If some of the findings are a reason to complain, all of them are. -/
theorem verdict_eq_one_of_filter {findings : List Finding} {keeps : Finding → Bool}
    (h : verdict (findings.filter keeps) = 1) : verdict findings = 1 := by
  cases findings with
  | nil => exact h
  | cons finding rest => rfl

/-- Sorting findings leaves something to complain about. -/
theorem verdict_sort_eq_one {findings : List Finding} (h : findings ≠ []) :
    verdict (Finding.sort findings) = 1 := by
  refine if_neg ?_
  rw [List.isEmpty_iff, ← List.length_eq_zero_iff,
    (Finding.isStableSort_sort _).perm.length_eq, List.length_eq_zero_iff]
  exact h

namespace Workspace

variable {workspace : Workspace} {path : Path}

/-! ## Contributions -/

theorem isOk_of_mem_contributionsAt {rules : List Rule} {finding : Finding}
    (h : finding ∈ workspace.contributionsAt rules path) :
    (workspace.find path).isOk = true := by
  obtain ⟨rule, -, hfinding⟩ := List.mem_flatMap.1 h
  cases hfind : workspace.find path with
  | ok entry => rfl
  | error fault => simp [contribution, fileAt?, read, hfind] at hfinding

/-- What is found in a file depends on what is read there. -/
theorem contributionsAt_withFiles {grown : FileSystem} (rules : List Rule)
    (h : (workspace.withFiles grown).read path = workspace.read path) :
    (workspace.withFiles grown).contributionsAt rules path =
      workspace.contributionsAt rules path := by
  simp only [contributionsAt, contribution, fileAt?, h]
  rfl

/-! ## Searches -/

/-- At the path there is a regular file where there was nothing before. -/
structure Gains (workspace other : Workspace) (path : Path) : Prop where
  absent : workspace.find path = .error .notFound
  present : ∃ content readable, other.find path = .ok (.file content readable)

/-- A search from a directory comes to no entry at which the system does not look because its path
is too long. -/
def LooksAtAll (workspace : Workspace) (root : Path) : Prop :=
  ∃ real tree, workspace.resolve root = .ok real ∧ workspace.find real = .ok tree ∧
    tree.IsClear defaultIgnored real

/-- The files are those that a search from a directory selects, in strict order. -/
structure IsSelection (real : Path) (tree : Entry) (files : List Path) : Prop where
  ordered : files.Pairwise fun a b => a.parts < b.parts
  short : ∀ file ∈ files, file.isTooLong = false
  mem_iff : ∀ file, file ∈ files ↔
    ∃ names, file = real.below names ∧ tree.Exposes defaultIgnored names ∧ file.HasRubySuffix

section

variable {real : Path} {reached : Reached}

theorem IsSelection.unique {tree : Entry} {files others : List Path}
    (h : IsSelection real tree files) (hothers : IsSelection real tree others) : files = others :=
  eq_of_pairwise_lt h.ordered hothers.ordered fun file =>
    (h.mem_iff file).trans (hothers.mem_iff file).symm

theorem exists_isSelection {root : Path} {tree : Entry} (hfiles : workspace.files.IsSound)
    (hreal : workspace.resolve root = .ok real) (hfind : workspace.find real = .ok tree)
    (hdirectory : tree.isDirectory = true) (hclear : tree.IsClear defaultIgnored real) :
    ∃ files, (workspace.discover {} root).value = .ok files ∧ IsSelection real tree files := by
  have hentry : workspace.entry? real = .ok (some tree) := by
    unfold entry?
    rw [hfind]
  have htree : tree.IsTree := by
    have hroot : (Entry.directory workspace.files.root).IsTree := hfiles.isTree
    obtain ⟨reached, hreached, rfl⟩ := FileSystem.exists_locate_of_find hfind
    exact hroot.of_at? (FileSystem.at?_of_locate hreached)
  obtain ⟨files, hvalue, hordered, hmem⟩ :=
    @exists_discover _ _ _ _ defaultIgnored none hreal hentry hdirectory htree
  refine ⟨files, hvalue, hordered, fun file hfile => ?_, fun file => ?_⟩
  · obtain ⟨names, rfl, hleads, -⟩ := (hmem file).1 hfile
    exact hleads.isTooLong hdirectory
  · simpa [hclear.leads_iff htree] using hmem file

theorem find_of_exposes (hfiles : workspace.files.IsSound)
    (hreached : workspace.Reaches real reached) {ignored names : List String}
    (hexposes : reached.entry.Exposes ignored names)
    (hshort : (real.below names).isTooLong = false) :
    ∃ content readable, workspace.find (real.below names) = .ok (.file content readable) := by
  obtain ⟨content, readable, hlocate⟩ := FileSystem.locate_of_exposes hfiles
    (FileSystem.at?_of_locate hreached) hexposes reached.links
  refine ⟨content, readable, ?_⟩
  rw [find_below hreached hshort, hlocate]
  rfl

end

section

variable {grown : FileSystem} {real : Path} {reached : Reached} {tree' : Entry}
  {files files' : List Path} {rules : List Rule} (hgrows : workspace.files.GrowsTo grown)
  (hfiles : workspace.files.IsSound) (hgrown : grown.IsSound)
  (hreached : workspace.Reaches real reached)
  (hreached' : (workspace.withFiles grown).Reaches real { reached with entry := tree' })
  (hselection : IsSelection real reached.entry files)
  (hselection' : IsSelection real tree' files')

include hgrows hgrown hreached hreached' hselection hselection'

/-- A file that is selected only now is new. -/
theorem gains_of_not_mem (hmem' : path ∈ files') (hmem : path ∉ files) :
    workspace.Gains (workspace.withFiles grown) path := by
  have hhere := FileSystem.at?_of_locate hreached
  have hhere' : grown.at? reached.place = some tree' := FileSystem.at?_of_locate hreached'
  have hshort := hselection'.short path hmem'
  obtain ⟨names, rfl, hexposes', hruby⟩ := (hselection'.mem_iff path).1 hmem'
  have hexposes : ¬ reached.entry.Exposes defaultIgnored names := fun hexposes =>
    hmem ((hselection.mem_iff _).2 ⟨names, rfl, hexposes, hruby⟩)
  refine ⟨?_, find_of_exposes hgrown hreached' hexposes' hshort⟩
  rw [find_below hreached hshort, hgrows.locate_notFound hgrown hhere hhere' hexposes' hexposes]
  rfl

include hfiles

/-- A file that was selected before is selected still, and it is read as it was. -/
theorem mem_and_read_eq_of_mem (hmem : path ∈ files) :
    path ∈ files' ∧ (workspace.withFiles grown).read path = workspace.read path := by
  have hhere := FileSystem.at?_of_locate hreached
  have hhere' : grown.at? reached.place = some tree' := FileSystem.at?_of_locate hreached'
  have hshort := hselection.short path hmem
  obtain ⟨names, rfl, hexposes, hruby⟩ := (hselection.mem_iff path).1 hmem
  have hexposes' : tree'.Exposes defaultIgnored names := hgrows.exposes hhere hhere' hexposes
  refine ⟨(hselection'.mem_iff _).2 ⟨names, rfl, hexposes', hruby⟩, ?_⟩
  obtain ⟨content, readable, hfind⟩ := find_of_exposes hfiles hreached hexposes hshort
  obtain ⟨entry', hfind', houtline⟩ := exists_find_withFiles hgrows hgrown hfind
  exact read_eq_of_outline hfind hfind' houtline

/-- What is found after files have been added, as far as it is about files that were there before,
is what was found before. -/
theorem filter_contributions (hrules : ∀ rule ∈ rules, rule.KeepsPath) :
    ((workspace.withFiles grown).contributions rules files').filter
        (fun finding => (workspace.find finding.location.path).isOk) =
      workspace.contributions rules files := by
  have hfiltered : files'.filter (· ∈ files) = files := by
    refine eq_of_pairwise_lt (hselection'.ordered.filter _) hselection.ordered fun file => ?_
    rw [List.mem_filter, decide_eq_true_eq]
    refine ⟨And.right, fun hmem => ⟨?_, hmem⟩⟩
    exact (mem_and_read_eq_of_mem hgrows hfiles hgrown hreached hreached' hselection hselection'
      hmem).1
  calc ((workspace.withFiles grown).contributions rules files').filter
        (fun finding => (workspace.find finding.location.path).isOk)
      = files'.flatMap fun path =>
          if path ∈ files then workspace.contributionsAt rules path else [] := by
        rw [contributions, List.filter_flatMap]
        refine List.flatMap_congr fun path hmem' => ?_
        have habout {finding : Finding}
            (h : finding ∈ (workspace.withFiles grown).contributionsAt rules path) :
            finding.location.path = path := path_of_mem_contributionsAt hrules h
        split
        · -- The file is read as before, and what is found in it has been found.
          rename_i hmem
          have hread := (mem_and_read_eq_of_mem hgrows hfiles hgrown hreached hreached' hselection
            hselection' hmem).2
          rw [List.filter_eq_self.2 fun finding hfinding => ?_,
            contributionsAt_withFiles rules hread]
          rw [habout hfinding]
          rw [contributionsAt_withFiles rules hread] at hfinding
          exact isOk_of_mem_contributionsAt hfinding
        · rename_i hmem
          refine List.filter_eq_nil_iff.2 fun finding hfinding hok => ?_
          rw [habout hfinding, (gains_of_not_mem hgrows hgrown hreached hreached' hselection
            hselection' hmem' hmem).absent] at hok
          cases hok
    _ = (files'.filter (· ∈ files)).flatMap (workspace.contributionsAt rules) := by
        rw [flatMap_filter]
        simp only [decide_eq_true_eq]
    _ = workspace.contributions rules files := by
        rw [hfiltered]
        rfl

/-- What is found in a file that could not be found before is found in a new file. -/
theorem gains_of_mem_contributions (hrules : ∀ rule ∈ rules, rule.KeepsPath) {finding : Finding}
    (hfinding : finding ∈ (workspace.withFiles grown).contributions rules files')
    (hnew : (workspace.find finding.location.path).isOk = false) :
    finding.location.path ∈ files' ∧
      workspace.Gains (workspace.withFiles grown) finding.location.path := by
  obtain ⟨path, hmem', hfinding⟩ := List.mem_flatMap.1 hfinding
  obtain rfl : finding.location.path = path := path_of_mem_contributionsAt hrules hfinding
  refine ⟨hmem', ?_⟩
  have hmem : finding.location.path ∉ files := by
    intro hmem
    have hread := (mem_and_read_eq_of_mem hgrows hfiles hgrown hreached hreached' hselection
      hselection' hmem).2
    rw [contributionsAt_withFiles rules hread] at hfinding
    rw [isOk_of_mem_contributionsAt hfinding] at hnew
    cases hnew
  exact gains_of_not_mem hgrows hgrown hreached hreached' hselection hselection' hmem' hmem

end

/-! ## Runs -/

section

variable {width : Nat} {args : List String} {request : Request} {files : List Path}

theorem exists_of_discover {selection : Selection} {root : Path}
    (h : (workspace.discover selection root).value = .ok files) :
    ∃ real tree, workspace.resolve root = .ok real ∧ workspace.find real = .ok tree ∧
      tree.isDirectory = true := by
  unfold discover at h
  cases hreal : workspace.resolve root with
  | error fault => simp [hreal] at h
  | ok real =>
    simp only [hreal, entry?] at h
    cases hfind : workspace.find real with
    | error fault =>
      cases fault <;> simp [hfind, AccessFault.isAbsence, failDiscovery] at h
    | ok tree =>
      refine ⟨real, tree, rfl, hfind, ?_⟩
      cases tree with
      | directory => rfl
      | file | link | special => simp [hfind, failDiscovery] at h

theorem value_targetFiles {target : Path} {entries : Directory} {permissions : Permissions}
    (hfind : workspace.find target = .ok (.directory entries permissions)) :
    (workspace.targetFiles target).value =
      (workspace.discover {} target).value.mapError .discovery := by
  simp only [targetFiles, entry?, hfind, Logged.value_bind]
  cases (workspace.discover {} target).value with
  | error fault => rfl
  | ok files => cases files <;> rfl

/-- What a run that came to its end went through. -/
theorem exists_of_run (hrequest : workspace.request args = .ok request)
    (hfault : (workspace.run width args).value.fault = none)
    (hcomplaint : (workspace.run width args).value.complaint = none) :
    ∃ settings files, (workspace.loadSettings request.target).value = .ok settings ∧
      (workspace.targetFiles request.target).value = .ok files := by
  cases hsettings : (workspace.loadSettings request.target).value with
  | error fault =>
    simp only [run, hrequest, perform, Logged.value_bind, value_configure, hsettings, Except.map,
      Logged.value_pure, Outcome.ofConfigFault] at hfault hcomplaint
    split at hfault <;> simp_all [Outcome.ofFault]
  | ok settings =>
    cases htarget : (workspace.targetFiles request.target).value with
    | error fault =>
      simp only [run, hrequest, perform, Logged.value_bind, value_configure, hsettings, Except.map,
        htarget, Logged.value_pure, Outcome.ofFault] at hfault
      cases hfault
    | ok files => exact ⟨settings, files, rfl, rfl⟩

/-- The searches of a directory before and after files have been added to the file system. -/
theorem exists_selections {grown : FileSystem} {root real : Path} {tree : Entry}
    (hgrows : workspace.files.GrowsTo grown) (hfiles : workspace.files.IsSound)
    (hgrown : grown.IsSound) (hreal : workspace.resolve root = .ok real)
    (hfind : workspace.find real = .ok tree) (hdirectory : tree.isDirectory = true)
    (hlooks : (workspace.withFiles grown).LooksAtAll root) :
    ∃ reached tree' files files', workspace.Reaches real reached ∧
      (workspace.withFiles grown).Reaches real { reached with entry := tree' } ∧
      (workspace.discover {} root).value = .ok files ∧
      ((workspace.withFiles grown).discover {} root).value = .ok files' ∧
      IsSelection real reached.entry files ∧ IsSelection real tree' files' := by
  obtain ⟨tree', hfind', houtline⟩ := exists_find_withFiles hgrows hgrown hfind
  have hreal' : (workspace.withFiles grown).resolve root = .ok real :=
    hgrows.resolve_eq hfiles hgrown hreal hfind
  have hdirectory' : tree'.isDirectory = true := by
    rw [← Entry.isDirectory_outline, houtline, Entry.isDirectory_outline, hdirectory]
  have hclear' : tree'.IsClear defaultIgnored real := by
    obtain ⟨_, _, hreal'', hfind'', hclear⟩ := hlooks
    cases hreal'.symm.trans hreal''
    cases hfind'.symm.trans hfind''
    exact hclear
  obtain ⟨reached, hreached, rfl⟩ := FileSystem.exists_locate_of_find hfind
  obtain ⟨tree', hreached', -⟩ := exists_reaches_withFiles hgrows hgrown hreached
  have hhere' : grown.at? reached.place = some tree' := FileSystem.at?_of_locate hreached'
  -- What is found at the path is what has been reached there.
  obtain ⟨_, hlocate, rfl⟩ := FileSystem.exists_locate_of_find hfind'
  cases hreached'.symm.trans hlocate
  have hclear := hgrows.isClear (FileSystem.at?_of_locate hreached) hhere' hclear'
  obtain ⟨files, hvalue, hselection⟩ := exists_isSelection hfiles hreal hfind hdirectory hclear
  obtain ⟨files', hvalue', hselection'⟩ :=
    exists_isSelection hgrown hreal' hfind' hdirectory' hclear'
  exact ⟨reached, _, files, files', hreached, hreached', hvalue, hvalue', hselection, hselection'⟩

/-- A run about a directory that prints plain lines. -/
theorem value_run_of_plain (width : Nat) {settings : Settings} {entries : Directory}
    {permissions : Permissions}
    (hrequest : workspace.request args = .ok request) (hplain : request.pretty = false)
    (htarget : workspace.find request.target = .ok (.directory entries permissions))
    (hsettings : (workspace.loadSettings request.target).value = .ok settings)
    (hfiles : (workspace.discover {} request.target).value = .ok files) :
    (workspace.run width args).value =
      .ofFindings (Finding.sort
        (workspace.contributions [namingRule (request.style.getD settings.style)] files)) := by
  have htargetFiles : (workspace.targetFiles request.target).value = .ok files := by
    rw [value_targetFiles htarget, hfiles]
    rfl
  rw [value_run_of_files hrequest hsettings htargetFiles, value_analyze]
  simp [present, hplain, Outcome.ofFindings]

end

end Workspace

open Workspace

/-- **Adding files is monotone.**  Let regular files that do not have the name of configuration
files be added to a file system, in directories that are there or in new ones.  Let no configuration
file of the target or above it that was a link to nowhere lead to a file now, and let no entry of
the directories that the search goes through have a path that is too long.  If a run that prints
plain lines about a directory came to its end, so does the same run afterwards, and it finds what
was found before, in the same order.  Whatever it finds besides is in a new file that a search from
the directory selects.  So the lines that were printed are a sublist of those that are printed, a
complaint stays a complaint, and nothing changes if no new file is selected. -/
theorem run_growsTo (workspace : Workspace) (grown : FileSystem) (width : Nat) (args : List String)
    (request : Request) (hfiles : workspace.files.IsSound) (hgrown : grown.IsSound)
    (hgrows : workspace.files.GrowsTo grown) (hrequest : workspace.request args = .ok request)
    (hplain : request.pretty = false)
    (hdirectory : ∃ entries permissions,
      workspace.find request.target = .ok (.directory entries permissions))
    (hdead : ¬ workspace.RevivesConfiguration (workspace.withFiles grown) request.target)
    (hlooks : (workspace.withFiles grown).LooksAtAll request.target)
    (hfault : (workspace.run width args).value.fault = none)
    (hcomplaint : (workspace.run width args).value.complaint = none) :
    ∃ (findings findings' : List Finding) (selected : List Path),
      (workspace.run width args).value = .ofFindings findings ∧
      ((workspace.withFiles grown).run width args).value = .ofFindings findings' ∧
      (workspace.withFiles grown).request args = .ok request ∧
      ((workspace.withFiles grown).discover {} request.target).value = .ok selected ∧
      findings =
        findings'.filter (fun finding => (workspace.find finding.location.path).isOk) ∧
      (∀ finding ∈ findings', (workspace.find finding.location.path).isOk = false →
        finding.location.path ∈ selected ∧
          workspace.Gains (workspace.withFiles grown) finding.location.path) ∧
      (findings.map Finding.lineText).Sublist (findings'.map Finding.lineText) ∧
      ((workspace.run width args).value.exitCode = 1 →
        ((workspace.withFiles grown).run width args).value.exitCode = 1) ∧
      ((∀ path ∈ selected, ¬ workspace.Gains (workspace.withFiles grown) path) →
        ((workspace.withFiles grown).run width args).value = (workspace.run width args).value) := by
  obtain ⟨entries, permissions, htarget⟩ := hdirectory
  obtain ⟨settings, files, hsettings, htargetFiles⟩ := exists_of_run hrequest hfault hcomplaint
  -- The target is searched where it was before.
  obtain ⟨real, tree, hreal, hfind, htree⟩ : ∃ real tree,
      workspace.resolve request.target = .ok real ∧ workspace.find real = .ok tree ∧
        tree.isDirectory = true := by
    rw [value_targetFiles htarget] at htargetFiles
    cases hdiscover : (workspace.discover {} request.target).value with
    | error fault =>
      rw [hdiscover] at htargetFiles
      cases htargetFiles
    | ok found => exact exists_of_discover hdiscover
  obtain ⟨reached, tree', found, selected, hreached, hreached', hfound, hselected, hselection,
    hselection'⟩ := exists_selections hgrows hfiles hgrown hreal hfind htree hlooks
  obtain ⟨entry', htarget', houtline⟩ := exists_find_withFiles hgrows hgrown htarget
  obtain ⟨others, rfl⟩ := Entry.exists_of_outline_eq_directory houtline
  have hrequest' := request_withFiles hgrows hfiles hgrown hrequest
  have hsettings' := value_loadSettings_withFiles hgrows hfiles hgrown hreal hfind htree hdead
  rw [hsettings] at hsettings'
  have hrun := value_run_of_plain width hrequest hplain htarget hsettings hfound
  have hrun' := value_run_of_plain width hrequest' hplain htarget' hsettings' hselected
  have hrules : ∀ rule ∈ [namingRule (request.style.getD settings.style)], rule.KeepsPath := by
    simpa using keepsPath_namingRule _
  generalize [namingRule (request.style.getD settings.style)] = rules at hrun hrun' hrules
  have hfilter := filter_contributions hgrows hfiles hgrown hreached hreached' hselection
    hselection' hrules
  have hfindings := Finding.filter_sort ((workspace.withFiles grown).contributions rules selected)
    fun finding => (workspace.find finding.location.path).isOk
  rw [hfilter] at hfindings
  have hgains (finding : Finding) (hfinding : finding ∈ Finding.sort
      ((workspace.withFiles grown).contributions rules selected)) :=
    gains_of_mem_contributions hgrows hfiles hgrown hreached hreached' hselection hselection'
      hrules ((Finding.isStableSort_sort _).perm.mem_iff.1 hfinding)
  refine ⟨_, _, selected, hrun, hrun', hrequest', hselected, hfindings.symm, hgains, ?_, ?_, ?_⟩
  · rw [← hfindings]
    exact List.filter_sublist.map _
  · rw [hrun, hrun', ← hfindings]
    exact verdict_eq_one_of_filter
  · intro hnone
    rw [hrun, hrun', ← hfindings, List.filter_eq_self.2 fun finding hfinding => ?_]
    by_contra hnew
    obtain ⟨hmem, hgained⟩ := hgains finding hfinding (by simpa using hnew)
    exact hnone _ hmem hgained

/-! ## A configuration file that is a link -/

/-- The variable has an underscore in front of the name of the method. -/
def underscoredSource : Bytes := Text.Utf8.encode "def a; @_a ||= 1; end"

/-- The tree of `underscoredSource`. -/
def underscoredTree : ParseTree :=
  inlineNode "program" 0 21 none [
    inlineNode "method" 0 21 none [
      inlineNode "identifier" 4 5 (some "name") [],
      inlineNode "body_statement" 7 17 (some "body") [
        inlineNode "operator_assignment" 7 16 none [
          inlineNode "instance_variable" 7 10 (some "left") [],
          inlineNode "||=" 11 14 (some "operator") [] false,
          inlineNode "integer" 15 16 (some "right") []]]]]

/-- A directory with a source, and with a link out of it for a configuration file. -/
def linkedDirectory : Directory :=
  [(configurationName, .link "../conf.toml"), ("a.rb", .file underscoredSource)]

/-- A workspace in which the link leads nowhere. -/
def linkedWorkspace : Workspace where
  files := { root := [("app", .directory linkedDirectory)] }
  directory := Path.rootDirectory
  parse _ := { root := underscoredTree, hasErrors := false }

/-- The files of `linkedWorkspace` and one more. -/
def linkedFilesWith (place : Place) (content : Bytes) : FileSystem where
  root := linkedWorkspace.files.root.insert (.file content) place

theorem isSound_linkedWorkspace : linkedWorkspace.files.IsSound := by
  have hnames : linkedWorkspace.files.root.names = ["app", configurationName, "a.rb"] := by
    simp [linkedWorkspace, linkedDirectory, Directory.names]
  refine ⟨.intro (by decide) fun name inner permissions hmem => ?_, ?_⟩
  · obtain ⟨-, rfl, -⟩ : _ ∧ inner = linkedDirectory ∧ _ := by
      simpa [linkedWorkspace] using hmem
    exact .intro (by decide) (by simp [linkedDirectory])
  · rw [hnames]
    decide

section

variable {files : FileSystem} {entries : Directory}
  (happ : files.at? ["app"] = some (.directory entries))

include happ

theorem reaches_app :
    (linkedWorkspace.withFiles files).Reaches ⟨.root, ["app"]⟩
      ⟨["app"], .directory entries, 40⟩ := by
  have hroot : files.at? [] = some (.directory files.root) := rfl
  change files.locate 40 [] ["app"] = _
  rw [FileSystem.locate_name hroot [] rfl (by decide) (by decide) (by decide) happ (by simp),
    FileSystem.locate.eq_def, List.nil_append, happ]

theorem find_app :
    (linkedWorkspace.withFiles files).find ⟨.root, ["app"]⟩ = .ok (.directory entries) := by
  have hbelow : (linkedWorkspace.withFiles files).find ⟨.root, ["app"]⟩ =
      (files.locate 40 ["app"] []).map Reached.entry :=
    @find_below _ _ _ (reaches_app happ) [] (by decide)
  rw [hbelow, FileSystem.locate.eq_def, happ]
  rfl

theorem read_source (hsource : entries.lookup "a.rb" = some (.file underscoredSource)) :
    (linkedWorkspace.withFiles files).read ⟨.root, ["app", "a.rb"]⟩ = .ok underscoredSource := by
  have hat := (FileSystem.at?_concat happ "a.rb").trans hsource
  have hbelow : (linkedWorkspace.withFiles files).find ⟨.root, ["app", "a.rb"]⟩ =
      (files.locate 40 ["app"] ["a.rb"]).map Reached.entry :=
    @find_below _ _ _ (reaches_app happ) ["a.rb"] (by decide)
  rw [FileSystem.locate_name happ [] rfl (by decide) (by decide) (by decide) hat (by simp),
    FileSystem.locate.eq_def, hat] at hbelow
  simp only [Workspace.read, hbelow]
  rfl

variable (hlink : entries.lookup configurationName = some (.link "../conf.toml"))

include hlink

/-- Where the link leads to from the directory. -/
theorem find_configuration_app :
    (linkedWorkspace.withFiles files).find (Path.configuration ⟨.root, ["app"]⟩) =
      (files.locate 39 [] ["conf.toml"]).map Reached.entry := by
  have hat := (FileSystem.at?_concat happ configurationName).trans hlink
  have hparts : Path.pieces "../conf.toml" = ["..", "conf.toml"] := by decide
  have hbelow : (linkedWorkspace.withFiles files).find (Path.configuration ⟨.root, ["app"]⟩) =
      (files.locate (39 + 1) ["app"] [configurationName]).map Reached.entry :=
    find_below (reaches_app happ) (by decide)
  rw [hbelow, FileSystem.locate_link happ [] rfl (by decide) (by decide) (by decide) hat, hparts]
  change (files.locate 39 ["app"] ["..", "conf.toml"]).map _ = _
  rw [FileSystem.locate_dots happ _ rfl]
  rfl

/-- Without a file where it leads to, the link leads nowhere. -/
theorem find_configuration_app_of_none (hnone : files.at? ["conf.toml"] = none) :
    (linkedWorkspace.withFiles files).find (Path.configuration ⟨.root, ["app"]⟩) =
      .error .notFound := by
  have hroot : files.at? [] = some (.directory files.root) := rfl
  have hmissing : missingName "conf.toml" = .notFound := by decide
  rw [find_configuration_app happ hlink,
    FileSystem.locate_missing hroot [] rfl (by decide) (by decide) (by decide) hnone, hmissing]
  rfl

theorem isFile_configuration_app (hnone : files.at? ["conf.toml"] = none) :
    (linkedWorkspace.withFiles files).isFile (Path.configuration ⟨.root, ["app"]⟩) = .ok false :=
  isFile_eq_false_of_absence (find_configuration_app_of_none happ hlink hnone) (by decide)

/-- With a file there, the configuration file is this one. -/
theorem hasContent_app {content : Bytes} (hfile : files.at? ["conf.toml"] = some (.file content)) :
    (linkedWorkspace.withFiles files).HasContent ⟨.root, ["app"]⟩ content := by
  have hroot : files.at? [] = some (.directory files.root) := rfl
  have hfind : (linkedWorkspace.withFiles files).find (Path.configuration ⟨.root, ["app"]⟩) =
      .ok (.file content) := by
    rw [find_configuration_app happ hlink,
      FileSystem.locate_name hroot [] rfl (by decide) (by decide) (by decide) hfile (by simp),
      FileSystem.locate.eq_def, List.nil_append, hfile]
    rfl
  simp only [HasContent, evidence, isFile, entry?, Workspace.read, hfind]
  rfl

end

theorem find_linkedWorkspace_app :
    linkedWorkspace.find ⟨.root, ["app"]⟩ = .ok (.directory linkedDirectory) :=
  find_app (rfl : linkedWorkspace.files.at? ["app"] = _)

theorem request_linkedWorkspace :
    linkedWorkspace.request ["analyze", "app"] = .ok { target := ⟨.root, ["app"]⟩ } := by
  cbv

theorem resolve_linkedWorkspace :
    linkedWorkspace.resolve ⟨.root, ["app"]⟩ = .ok ⟨.root, ["app"]⟩ := by
  cbv

theorem discover_linkedWorkspace :
    (linkedWorkspace.discover {} ⟨.root, ["app"]⟩).value = .ok [⟨.root, ["app", "a.rb"]⟩] := by
  cbv

theorem lookupDirectories_linkedWorkspace :
    linkedWorkspace.lookupDirectories ⟨.root, ["app"]⟩ =
      .ok [⟨.root, ["app"]⟩, Path.rootDirectory] :=
  lookupDirectories_eq resolve_linkedWorkspace find_linkedWorkspace_app rfl

theorem value_loadSettings_linkedWorkspace :
    (linkedWorkspace.loadSettings ⟨.root, ["app"]⟩).value = .ok {} := by
  refine value_loadSettings_of_isSilent lookupDirectories_linkedWorkspace fun directory hmem => ?_
  rcases List.mem_pair.1 hmem with rfl | rfl
  · exact .absent (isFile_configuration_app (rfl : linkedWorkspace.files.at? ["app"] = _) rfl rfl)
  · exact .absent (isFile_configuration_root (rfl : linkedWorkspace.files.root.lookup _ = _))

theorem value_run_linkedWorkspace (width : Nat) :
    (linkedWorkspace.run width ["analyze", "app"]).value =
      .ofFindings (Finding.sort
        (linkedWorkspace.contributions [namingRule .disallowed] [⟨.root, ["app", "a.rb"]⟩])) := by
  have hrun := value_run_of_plain width request_linkedWorkspace rfl find_linkedWorkspace_app
    value_loadSettings_linkedWorkspace discover_linkedWorkspace
  exact hrun

/-- The source is complained about under the style that disallows underscores, and not under the one
that leaves them to choice. -/
theorem complaints_underscored :
    (lowerFile underscoredSource underscoredTree).walk.flatMap (Visit.complaints .disallowed) =
        [⟨Style.disallowed.message "@_a" "a", ⟨7, 10, ⟨1, 8⟩, ⟨1, 11⟩⟩⟩] ∧
      (lowerFile underscoredSource underscoredTree).walk.flatMap (Visit.complaints .optional) =
        [] := by
  decide +kernel

/-- So it contributes under the one style, wherever it is, and not under the other. -/
theorem contributions_underscored {workspace : Workspace} {path : Path}
    (hread : workspace.read path = .ok underscoredSource)
    (hparse : workspace.parse underscoredSource = { root := underscoredTree, hasErrors := false }) :
    workspace.contributions [namingRule .disallowed] [path] ≠ [] ∧
      workspace.contributions [namingRule .optional] [path] = [] := by
  have hrun (style : Style) : ((namingRule style).run
      { path, source := underscoredSource, tree := underscoredTree, hasErrors := false }).value =
        (((lowerFile underscoredSource underscoredTree).walk.flatMap
          (Visit.complaints style)).mapM
            (Complaint.finding ⟨path, underscoredSource⟩)).mapError .location :=
    value_checkNames style _ _
  simp only [contributions, contributionsAt, contribution, fileAt?, hread, hparse,
    List.flatMap_cons, List.flatMap_nil, List.append_nil, hrun]
  rw [complaints_underscored.1, complaints_underscored.2]
  refine ⟨?_, rfl⟩
  obtain ⟨finding, hfinding⟩ := (@Complaint.exists_finding_iff ⟨path, underscoredSource⟩
    ⟨Style.disallowed.message "@_a" "a", ⟨7, 10, ⟨1, 8⟩, ⟨1, 11⟩⟩⟩).2 (by decide)
  simp [hfinding, Except.mapError, bind, Except.bind, pure, Except.pure]

theorem exitCode_linkedWorkspace (width : Nat) :
    (linkedWorkspace.run width ["analyze", "app"]).value.exitCode = 1 := by
  have hread : linkedWorkspace.read ⟨.root, ["app", "a.rb"]⟩ = .ok underscoredSource :=
    read_source (rfl : linkedWorkspace.files.at? ["app"] = _) rfl
  rw [value_run_linkedWorkspace]
  exact verdict_sort_eq_one (contributions_underscored hread rfl).1

/-- The paths of its entries are not too long. -/
theorem isClear_linkedDirectory :
    (Entry.directory linkedDirectory).IsClear defaultIgnored ⟨.root, ["app"]⟩ := by
  refine .directory (by decide) fun name inner hmem hopen => ?_
  simp only [linkedDirectory, List.mem_cons, Prod.mk.injEq, List.not_mem_nil, or_false] at hmem
  rcases hmem with ⟨-, rfl⟩ | ⟨-, rfl⟩ <;> cases hopen

/-- The same source is added in a new directory below the target.  The configuration file, a link
that leads nowhere, still does so. -/
theorem run_growsTo_newDirectory :
    linkedWorkspace.files.GrowsTo (linkedFilesWith ["app", "lib", "b.rb"] underscoredSource) ∧
      linkedWorkspace.HasDeadConfiguration ⟨.root, ["app"]⟩ ∧
      ∃ findings findings',
        (linkedWorkspace.run 80 ["analyze", "app"]).value = .ofFindings findings ∧
        ((linkedWorkspace.withFiles
          (linkedFilesWith ["app", "lib", "b.rb"] underscoredSource)).run 80
            ["analyze", "app"]).value = .ofFindings findings' ∧
        (findings.map Finding.lineText).Sublist (findings'.map Finding.lineText) ∧
        verdict findings = 1 ∧ verdict findings' = 1 := by
  have hfree : (Entry.directory linkedWorkspace.files.root).IsFree ["app", "lib", "b.rb"] :=
    Entry.isFree_of_directory rfl (Entry.isFree_of_none rfl {} _) {}
  have hgrows : linkedWorkspace.files.GrowsTo
      (linkedFilesWith ["app", "lib", "b.rb"] underscoredSource) :=
    FileSystem.growsTo_insert rfl (by decide) hfree (by decide)
  have hgrown : (linkedFilesWith ["app", "lib", "b.rb"] underscoredSource).IsSound :=
    isSound_linkedWorkspace.insert rfl (by decide)
  have happ : (linkedFilesWith ["app", "lib", "b.rb"] underscoredSource).at? ["app"] =
      some (.directory (linkedDirectory.insert (.file underscoredSource) ["lib", "b.rb"])) := rfl
  have hrun := value_run_linkedWorkspace 80
  have hdead : ¬ linkedWorkspace.RevivesConfiguration (linkedWorkspace.withFiles
      (linkedFilesWith ["app", "lib", "b.rb"] underscoredSource)) ⟨.root, ["app"]⟩ := by
    rintro ⟨directories, hchain, directory, hmem, -, hfile⟩
    rw [lookupDirectories_linkedWorkspace] at hchain
    cases hchain
    rcases List.mem_pair.1 hmem with rfl | rfl
    · exact hfile (isFile_configuration_app happ rfl rfl)
    · exact hfile (isFile_configuration_root rfl)
  have hlooks : (linkedWorkspace.withFiles
      (linkedFilesWith ["app", "lib", "b.rb"] underscoredSource)).LooksAtAll ⟨.root, ["app"]⟩ := by
    refine ⟨_, _, hgrows.resolve_eq isSound_linkedWorkspace hgrown resolve_linkedWorkspace
      find_linkedWorkspace_app, find_app happ,
      .directory (by decide) fun name inner hmem hopen _ => ?_⟩
    have hentries : linkedDirectory.insert (.file underscoredSource) ["lib", "b.rb"] =
        linkedDirectory ++ [("lib", .directory [("b.rb", .file underscoredSource)])] := rfl
    rw [hentries] at hmem
    simp only [linkedDirectory, List.cons_append, List.nil_append, List.mem_cons, Prod.mk.injEq,
      List.not_mem_nil, or_false] at hmem
    rcases hmem with ⟨-, rfl⟩ | ⟨-, rfl⟩ | ⟨rfl, rfl⟩
    · cases hopen
    · cases hopen
    · refine .directory (by decide) fun name inner hmem hopen => ?_
      obtain ⟨-, rfl⟩ := Prod.mk.inj (List.mem_singleton.1 hmem)
      cases hopen
  obtain ⟨findings, findings', selected, hbefore, hafter, -, -, -, -, hlines, hcode, -⟩ :=
    run_growsTo linkedWorkspace _ 80 ["analyze", "app"] _ isSound_linkedWorkspace hgrown hgrows
      request_linkedWorkspace rfl ⟨_, _, find_linkedWorkspace_app⟩ hdead hlooks (by rw [hrun]; rfl)
      (by rw [hrun]; rfl)
  have hone := exitCode_linkedWorkspace 80
  have hone' := hcode hone
  rw [hbefore] at hone
  rw [hafter] at hone'
  refine ⟨hgrows, ?_, findings, findings', hbefore, hafter, hlines, hone, hone'⟩
  exact ⟨_, _, _, find_linkedWorkspace_app, rfl,
    find_configuration_app_of_none (rfl : linkedWorkspace.files.at? ["app"] = _) rfl rfl⟩

/-! ## A path that is too long -/

theorem mem_names_nested {entries : Directory} {depth : Nat} {name : String}
    (h : name ∈ (nested depth entries).names) : name = longestName ∨ name ∈ entries.names := by
  induction depth with
  | zero => exact .inr h
  | succ depth ih =>
    simp only [nested, Directory.names, List.append_nil, List.mem_cons] at h
    exact h.elim .inl ih

theorem at?_nested (entries : Directory) (depth : Nat) (place : Place) :
    (Entry.directory (nested depth entries)).at? (List.replicate depth longestName ++ place) =
      (Entry.directory entries).at? place := by
  induction depth with
  | zero => rfl
  | succ depth ih =>
    rw [nested, List.replicate_succ, List.cons_append, Entry.at?_directory_cons,
      List.lookup_cons_self, Option.bind_some, ih]

/-- A directory gains what the only directory in it gains. -/
theorem Entry.GainsAt.inside {file : Entry} {place : Place} {entries others : Directory}
    (h : file.GainsAt place (.directory entries) (.directory others)) (name : String) :
    file.GainsAt (name :: place) (.directory [(name, .directory entries)])
      (.directory [(name, .directory others)]) := by
  have hset : Directory.set [(name, .directory entries)] name (.directory others) =
      [(name, .directory others)] := by
    rw [Directory.set, if_pos rfl]
  rw [← hset]
  refine Directory.gainsAt_set (fun names entry hentry => ?_) fun names entry hnone hentry => ?_
  · rw [List.lookup_cons_self, Option.bind_some] at hentry
    exact h.kept names entry hentry
  · rw [List.lookup_cons_self, Option.bind_some] at hnone
    exact h.added names entry hnone hentry

theorem Entry.GainsAt.nested {file : Entry} {place : Place} {entries others : Directory}
    (h : file.GainsAt place (.directory entries) (.directory others)) (depth : Nat) :
    file.GainsAt (List.replicate depth longestName ++ place) (.directory (nested depth entries))
      (.directory (nested depth others)) := by
  induction depth with
  | zero => exact h
  | succ depth ih => exact ih.inside longestName

/-- The innermost directory gains a file that it lists first. -/
theorem gainsAt_crowded (source : Bytes) :
    (Entry.file []).GainsAt [longestName] (.directory (solitary source))
      (.directory (crowded source).reverse) := by
  have hne : "c.rb" ≠ longestName := ne_longestName (by decide)
  have hnone : (solitary source).lookup longestName = none := by
    rw [solitary, Directory.lookup_cons, if_neg hne.symm]
    rfl
  exact Directory.gainsAt_cons rfl hnone {}

theorem isEntryName_longestName : IsEntryName longestName :=
  ⟨(ne_longestName (by decide)).symm, (ne_longestName (by decide)).symm,
    (ne_longestName (by decide)).symm, utf8ByteSize_longestName.le⟩

/-- The workspace of a search, with a parser. -/
def sourceWorkspace (entries : Directory) : Workspace :=
  { searchedWorkspace (.directory entries) with
    parse := fun _ => { root := underscoredTree, hasErrors := false } }

section

variable {entries : Directory}

theorem find_sourceWorkspace (entries : Directory) :
    (sourceWorkspace entries).find ⟨.root, ["vendor"]⟩ = .ok (.directory entries) := by
  cbv

theorem request_sourceWorkspace (entries : Directory) :
    (sourceWorkspace entries).request ["analyze", "vendor"] =
      .ok { target := ⟨.root, ["vendor"]⟩ } := by
  cbv

theorem reaches_sourceWorkspace (entries : Directory) :
    (sourceWorkspace entries).Reaches ⟨.root, ["vendor"]⟩ ⟨["vendor"], .directory entries, 40⟩ := by
  cbv

theorem value_loadSettings_sourceWorkspace (hnone : entries.lookup configurationName = none) :
    ((sourceWorkspace entries).loadSettings ⟨.root, ["vendor"]⟩).value = .ok {} := by
  have hchain : (sourceWorkspace entries).lookupDirectories ⟨.root, ["vendor"]⟩ =
      .ok [⟨.root, ["vendor"]⟩, Path.rootDirectory] :=
    lookupDirectories_eq (resolve_searchedWorkspace _) (find_sourceWorkspace entries) rfl
  refine value_loadSettings_of_isSilent hchain fun directory hmem => .absent ?_
  rcases List.mem_pair.1 hmem with rfl | rfl
  · exact isFile_configuration_of_none (reaches_sourceWorkspace entries) rfl rfl hnone (by decide)
  · exact isFile_configuration_root rfl

theorem value_run_sourceWorkspace (width : Nat) (hnone : entries.lookup configurationName = none)
    {files : List Path}
    (hfiles : ((sourceWorkspace entries).discover {} ⟨.root, ["vendor"]⟩).value = .ok files) :
    ((sourceWorkspace entries).run width ["analyze", "vendor"]).value =
      .ofFindings (Finding.sort
        ((sourceWorkspace entries).contributions [namingRule .disallowed] files)) := by
  have hrun := value_run_of_plain width (request_sourceWorkspace entries) rfl
    (find_sourceWorkspace entries) (value_loadSettings_sourceWorkspace hnone) hfiles
  exact hrun

end

theorem isSound_sourceWorkspace_nested {entries : Directory} (htree : entries.IsTree)
    (hnames : ∀ name ∈ entries.names, IsEntryName name) :
    (sourceWorkspace (nested 15 entries)).files.IsSound := by
  refine ⟨.intro (List.nodup_singleton _) fun name inner permissions hmem => ?_,
    fun name hname => ?_⟩
  · obtain ⟨-, hinner⟩ := Prod.mk.inj (List.mem_singleton.1 hmem)
    cases hinner
    exact isTree_nested htree 15
  · have hname' : name = "vendor" ∨ name ∈ (nested 15 entries).names := by
      change name ∈ Directory.names [("vendor", .directory (nested 15 entries))] at hname
      simpa only [Directory.names, List.append_nil, List.mem_cons] using hname
    rcases hname' with rfl | hname
    · decide
    · rcases mem_names_nested hname with rfl | hname
      · exact isEntryName_longestName
      · exact hnames name hname

theorem lookup_nested (entries : Directory) :
    (nested 15 entries).lookup configurationName = none := by
  have hne : configurationName ≠ longestName := ne_longestName (by decide)
  rw [nested, Directory.lookup_cons, if_neg hne]
  rfl

theorem isSound_sourceWorkspace_solitary (source : Bytes) :
    (sourceWorkspace (nested 15 (solitary source))).files.IsSound := by
  refine isSound_sourceWorkspace_nested (isTree_solitary source) fun name hname => ?_
  simp only [solitary, Directory.names, List.mem_singleton] at hname
  rw [hname]
  decide

theorem isSound_sourceWorkspace_crowded (source : Bytes) :
    (sourceWorkspace (nested 15 (crowded source).reverse)).files.IsSound := by
  refine isSound_sourceWorkspace_nested ((reorders_crowded source).isTree (isTree_crowded source))
    fun name hname => ?_
  have hnames : Directory.names (crowded source).reverse = [longestName, "c.rb"] := by
    simp [crowded, Directory.names]
  rw [hnames] at hname
  rcases List.mem_pair.1 hname with rfl | rfl
  · exact isEntryName_longestName
  · decide

theorem growsTo_crowded (source : Bytes) :
    (sourceWorkspace (nested 15 (solitary source))).files.GrowsTo
      (sourceWorkspace (nested 15 (crowded source).reverse)).files := by
  have hne : configurationName ≠ longestName := ne_longestName (by decide)
  refine FileSystem.growsTo_of_gainsAt rfl ?_
    (((gainsAt_crowded source).nested 15).inside "vendor")
  simpa using hne.symm

/-- The source in the innermost directory can be read. -/
theorem read_innermost (source : Bytes) :
    (sourceWorkspace (nested 15 (solitary source))).read (innermost.child "c.rb") = .ok source := by
  have htree := isTree_solitary source
  have hsound : (sourceWorkspace (nested 15 (solitary source))).files.IsSound :=
    isSound_sourceWorkspace_solitary source
  have hreached := reaches_sourceWorkspace (nested 15 (solitary source))
  have hleads : (Entry.directory (nested 15 (solitary source))).Leads defaultIgnored
      ⟨.root, ["vendor"]⟩ (List.replicate 15 longestName ++ ["c.rb"]) :=
    leads_innermost_iff.2
      ⟨_, rfl, (leads_innermost (visible_solitary source)).2 rfl⟩
  have hhere : (sourceWorkspace (nested 15 (solitary source))).files.at? ["vendor"] =
      some (.directory (nested 15 (solitary source))) := FileSystem.at?_of_locate hreached
  obtain ⟨content, readable, hlocate⟩ :=
    FileSystem.locate_of_exposes hsound hhere (hleads.exposes (isTree_nested htree 15)) 40
  -- What has been located is the source.
  have hat := FileSystem.at?_of_locate hlocate
  rw [FileSystem.at?_append, hhere, Option.bind_some, at?_nested] at hat
  obtain ⟨rfl, rfl⟩ : source = content ∧ true = readable := by
    simpa [solitary, Entry.at?] using hat
  have hfind : (sourceWorkspace (nested 15 (solitary source))).find (innermost.child "c.rb") =
      .ok (.file source) := by
    have hbelow := find_below hreached (hleads.isTooLong rfl)
    rw [hlocate] at hbelow
    exact hbelow
  simp only [Workspace.read, hfind]

/-- Settings that leave underscores to choice. -/
def permissiveSettings : Bytes := Text.Utf8.encode lenientConfiguration

/-- The files of `linkedWorkspace` with settings to which its configuration file, a link, leads. -/
def revivedFiles : FileSystem := linkedFilesWith ["conf.toml"] permissiveSettings

theorem growsTo_revivedFiles : linkedWorkspace.files.GrowsTo revivedFiles := by
  have hfree : (Entry.directory linkedWorkspace.files.root).IsFree ["conf.toml"] :=
    Entry.isFree_of_none rfl {} []
  exact FileSystem.growsTo_insert rfl (by decide) hfree (by decide)

theorem isSound_revivedFiles : revivedFiles.IsSound :=
  isSound_linkedWorkspace.insert rfl (by decide)

theorem at?_revivedFiles : revivedFiles.at? ["app"] = some (.directory linkedDirectory) := rfl

theorem resolve_revivedFiles :
    (linkedWorkspace.withFiles revivedFiles).resolve ⟨.root, ["app"]⟩ = .ok ⟨.root, ["app"]⟩ :=
  growsTo_revivedFiles.resolve_eq isSound_linkedWorkspace isSound_revivedFiles
    resolve_linkedWorkspace find_linkedWorkspace_app

theorem value_loadSettings_revivedFiles :
    ((linkedWorkspace.withFiles revivedFiles).loadSettings ⟨.root, ["app"]⟩).value =
      .ok { style := .optional } := by
  have hdocument : (linkedWorkspace.withFiles revivedFiles).HasDocument ⟨.root, ["app"]⟩
      [("tool", .table .implied [("memolint", .table .declared
        [("enforced_style_for_leading_underscores", .text "optional")])])] :=
    hasDocument_of_encode (hasContent_app at?_revivedFiles rfl rfl) read_configurations.2.1
  have houtcome := outcomeAt?_of_decides (.table ⟨_, _, _, hdocument, rfl, rfl⟩)
  rw [value_loadSettings
    (lookupDirectories_eq resolve_revivedFiles (find_app at?_revivedFiles) rfl)]
  change ([⟨.root, ["app"]⟩, Path.rootDirectory].findSome? _).getD _ = _
  rw [List.findSome?_cons, houtcome]
  rfl

/-- The search comes to the same entry as before. -/
theorem discover_revivedFiles :
    ((linkedWorkspace.withFiles revivedFiles).discover {} ⟨.root, ["app"]⟩).value =
      (linkedWorkspace.discover {} ⟨.root, ["app"]⟩).value := by
  obtain ⟨files, hfiles, hselection⟩ := exists_isSelection isSound_linkedWorkspace
    resolve_linkedWorkspace find_linkedWorkspace_app rfl isClear_linkedDirectory
  obtain ⟨files', hfiles', hselection'⟩ := exists_isSelection isSound_revivedFiles
    resolve_revivedFiles (find_app at?_revivedFiles) rfl isClear_linkedDirectory
  rw [hfiles', hselection'.unique hselection, hfiles]

theorem value_run_revivedFiles :
    ((linkedWorkspace.withFiles revivedFiles).run 80 ["analyze", "app"]).value =
      .ofFindings [] := by
  have hrequest := request_withFiles growsTo_revivedFiles isSound_linkedWorkspace
    isSound_revivedFiles request_linkedWorkspace
  have hrun := value_run_of_plain 80 hrequest rfl (find_app at?_revivedFiles)
    value_loadSettings_revivedFiles (discover_revivedFiles.trans discover_linkedWorkspace)
  rw [hrun]
  change Outcome.ofFindings (Finding.sort (contributions _ [namingRule .optional] _)) = _
  rw [(contributions_underscored (read_source at?_revivedFiles rfl) rfl).2]
  simp [Finding.sort]

/-- Without its conditions the statement is false.  In the first case a file is added outside of the
target, where no search comes to it, but the configuration file of the target, a link, now leads to
it.  In the second one an empty file is added beside the source in the innermost of the nested
directories; its path is too long, and it is listed first.  In both cases there is nothing to
complain about any more. -/
theorem run_revivedConfiguration :
    linkedWorkspace.files.IsSound ∧ revivedFiles.IsSound ∧
      linkedWorkspace.files.GrowsTo revivedFiles ∧
      ((linkedWorkspace.withFiles revivedFiles).discover {} ⟨.root, ["app"]⟩).value =
        (linkedWorkspace.discover {} ⟨.root, ["app"]⟩).value ∧
      (∃ findings, (linkedWorkspace.run 80 ["analyze", "app"]).value = .ofFindings findings) ∧
      (linkedWorkspace.run 80 ["analyze", "app"]).value.exitCode = 1 ∧
      ((linkedWorkspace.withFiles revivedFiles).run 80 ["analyze", "app"]).value =
        .ofFindings [] ∧
    (sourceWorkspace (nested 15 (solitary underscoredSource))).files.IsSound ∧
      (sourceWorkspace (nested 15 (crowded underscoredSource).reverse)).files.IsSound ∧
      (sourceWorkspace (nested 15 (solitary underscoredSource))).files.GrowsTo
        (sourceWorkspace (nested 15 (crowded underscoredSource).reverse)).files ∧
      (∃ findings, ((sourceWorkspace (nested 15 (solitary underscoredSource))).run 80
        ["analyze", "vendor"]).value = .ofFindings findings ∧ verdict findings = 1) ∧
      ((sourceWorkspace (nested 15 (crowded underscoredSource).reverse)).run 80
        ["analyze", "vendor"]).value = .ofFindings [] ∧
    (Outcome.ofFindings []).exitCode = 0 := by
  refine ⟨isSound_linkedWorkspace, isSound_revivedFiles, growsTo_revivedFiles,
    discover_revivedFiles, ⟨_, value_run_linkedWorkspace 80⟩, exitCode_linkedWorkspace 80,
    value_run_revivedFiles, isSound_sourceWorkspace_solitary _, isSound_sourceWorkspace_crowded _,
    growsTo_crowded _, ⟨_, value_run_sourceWorkspace 80 (lookup_nested _)
      (discover_nested (isTree_solitary _) (visible_solitary _)), ?_⟩, ?_, rfl⟩
  · exact verdict_sort_eq_one (contributions_underscored (read_innermost _) rfl).1
  · rw [value_run_sourceWorkspace 80 (lookup_nested _) (discover_nested_of_nil
      ((reorders_crowded _).isTree (isTree_crowded _)) (visible_reverse_crowded _))]
    simp [contributions, Finding.sort]

end MemoAudit
