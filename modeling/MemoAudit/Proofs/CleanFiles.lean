import Mathlib
import MemoAudit.Proofs.Precedence
import MemoAudit.Proofs.Totals

/-!
# Which files are shown as clean

The table of files says of each file whether there are findings about it.  It is made from the
findings and from the files that were collected, and neither says how the analysis went: a file that
cannot be read leaves nothing but an entry in the log, and so does a rule that fails.

So a file is shown as clean exactly if nothing was found in it (`Workspace.IsQuiet`), be it that the
rules went through it and had nothing to say (`Workspace.Passes`), or that it could not be read, or
that the rules failed on it.  That clean files have passed is thus a condition on the workspace: all
files can be read, and where a rule fails, another one finds something.
-/

namespace MemoAudit

namespace Report

/-- The files that a report shows as clean. -/
def cleanPaths (findings : List Finding) (analysed : List Path) : List Path :=
  ((fileRows findings analysed).filter (·.status = .clean)).map FileRow.path

theorem mem_cleanPaths {findings : List Finding} {analysed : List Path} {path : Path} :
    path ∈ cleanPaths findings analysed ↔
      path ∈ analysed ∧ ∀ finding ∈ findings, finding.pathText ≠ path.text := by
  have haccounts := accounts_fileRows findings analysed
  rw [← haccounts.paths.mem_iff, ← fileRows_eq, cleanPaths, List.mem_map, List.mem_map]
  constructor
  · rintro ⟨row, hrow, rfl⟩
    obtain ⟨hmem, hclean⟩ := List.mem_filter.1 hrow
    refine ⟨⟨row, hmem, rfl⟩, ?_⟩
    rw [fileRows_eq, List.mem_append] at hmem
    rcases hmem with hmem | hmem
    · rw [(haccounts.flaggedStatus row hmem).1] at hclean
      cases hclean
    · exact (haccounts.cleanStatus row hmem).2.2
  · rintro ⟨⟨row, hmem, rfl⟩, hnone⟩
    refine ⟨row, List.mem_filter.2 ⟨hmem, ?_⟩, rfl⟩
    rw [fileRows_eq, List.mem_append] at hmem
    rcases hmem with hmem | hmem
    · obtain ⟨-, finding, hfinding, htext⟩ := haccounts.flaggedStatus row hmem
      exact absurd htext (hnone finding hfinding)
    · exact decide_eq_true (haccounts.cleanStatus row hmem).1

end Report

namespace Workspace

variable {workspace : Workspace} {rules : List Rule} {path : Path}

/-- The file at the path was read, and every rule went through it and found nothing. -/
def Passes (workspace : Workspace) (rules : List Rule) (path : Path) : Prop :=
  ∃ file, workspace.fileAt? path = some file ∧ ∀ rule ∈ rules, (rule.run file).value = .ok []

/-- Whatever rule went through the file at the path, if it could be read, found nothing. -/
def IsQuiet (workspace : Workspace) (rules : List Rule) (path : Path) : Prop :=
  ∀ file, workspace.fileAt? path = some file →
    ∀ rule ∈ rules, ∀ found, (rule.run file).value = .ok found → found = []

theorem contribution_eq_nil_iff {rule : Rule} : workspace.contribution rule path = [] ↔
    ∀ file, workspace.fileAt? path = some file →
      ∀ found, (rule.run file).value = .ok found → found = [] := by
  unfold contribution
  cases workspace.fileAt? path with
  | none => simp
  | some file => cases hrun : (rule.run file).value <;> simp [hrun]

theorem isQuiet_iff : workspace.IsQuiet rules path ↔ workspace.contributionsAt rules path = [] := by
  simp only [contributionsAt, List.flatMap_eq_nil_iff, contribution_eq_nil_iff]
  exact ⟨fun h rule hrule file hfile => h file hfile rule hrule,
    fun h file hfile rule hrule => h rule hrule file hfile⟩

/-- After an analysis, the clean files are those in which nothing was found. -/
theorem mem_cleanPaths_iff (hrules : ∀ rule ∈ rules, rule.KeepsPath) {files : List Path}
    (hproper : ∀ path ∈ files, path.IsProper) :
    path ∈ Report.cleanPaths (workspace.analyze rules files).value files ↔
      path ∈ files ∧ workspace.IsQuiet rules path := by
  rw [Report.mem_cleanPaths, isQuiet_iff]
  refine and_congr_right fun hpath => ?_
  simp only [value_analyze, (Finding.isStableSort_sort _).perm.mem_iff, contributions,
    List.mem_flatMap]
  constructor
  · intro hnone
    refine List.eq_nil_iff_forall_not_mem.2 fun finding hfinding => ?_
    refine hnone finding ⟨path, hpath, hfinding⟩ ?_
    rw [Finding.pathText, path_of_mem_contributionsAt hrules hfinding]
  · rintro hnil finding ⟨other, hother, hfinding⟩ htext
    rw [Finding.pathText, path_of_mem_contributionsAt hrules hfinding] at htext
    -- Another file with the same text would be the same file.
    obtain rfl := Path.text_injective (hproper other hother) (hproper path hpath) htext
    rw [hnil] at hfinding
    cases hfinding

/-- Nothing was found and yet the file did not pass: it was not read, or a rule failed on it. -/
theorem passes_iff_of_isQuiet (hquiet : workspace.IsQuiet rules path) :
    workspace.Passes rules path ↔ ∃ file, workspace.fileAt? path = some file ∧
      ∀ rule ∈ rules, ¬ ∃ fault, (rule.run file).value = .error fault := by
  refine exists_congr fun file => and_congr_right fun hfile => forall₂_congr fun rule hrule => ?_
  cases hrun : (rule.run file).value with
  | error fault => simp
  | ok found => simp [hquiet file hfile rule hrule found hrun]

/-- The clean files have passed exactly if all files can be read and no rule fails on a file in
which nothing else is found. -/
theorem forall_passes_iff (hrules : ∀ rule ∈ rules, rule.KeepsPath) {files : List Path}
    (hproper : ∀ path ∈ files, path.IsProper) :
    (∀ path ∈ Report.cleanPaths (workspace.analyze rules files).value files,
        workspace.Passes rules path) ↔
      ∀ path ∈ files, ∃ file, workspace.fileAt? path = some file ∧
        ∀ rule ∈ rules, (∃ fault, (rule.run file).value = .error fault) →
          ∃ other ∈ rules, ∃ found, (other.run file).value = .ok found ∧ found ≠ [] := by
  simp only [mem_cleanPaths_iff hrules hproper, and_imp]
  constructor
  · intro hpasses path hpath
    by_cases hquiet : workspace.IsQuiet rules path
    · obtain ⟨file, hfile, hpassed⟩ := hpasses path hpath hquiet
      refine ⟨file, hfile, ?_⟩
      rintro rule hrule ⟨fault, hfault⟩
      rw [hpassed rule hrule] at hfault
      cases hfault
    · unfold IsQuiet at hquiet
      push Not at hquiet
      obtain ⟨file, hfile, rule, hrule, found, hrun, hsome⟩ := hquiet
      exact ⟨file, hfile, fun _ _ _ => ⟨rule, hrule, found, hrun, hsome⟩⟩
  · intro hread path hpath hquiet
    obtain ⟨file, hfile, hothers⟩ := hread path hpath
    refine (passes_iff_of_isQuiet hquiet).2 ⟨file, hfile, fun rule hrule hfails => ?_⟩
    obtain ⟨other, hother, found, hrun, hsome⟩ := hothers rule hrule hfails
    exact hsome (hquiet file hfile other hother found hrun)

/-- The report on an analysis is whole if the files that it was asked for have labels. -/
theorem snd_report_analyze (hrules : ∀ rule ∈ rules, rule.KeepsPath) {files : List Path}
    (hproper : ∀ path ∈ files, path.IsProper)
    (hlabels : ∀ path ∈ files, ∃ shown, workspace.label path = .ok shown) (verbose : Bool) :
    (workspace.report (workspace.analyze rules files).value files verbose).2 = none := by
  refine Report.snd_document_eq_none_iff.2 ⟨fun finding hfinding => ?_, hlabels⟩
  have hpath := path_mem_of_mem_analyze hrules hfinding
  rw [Finding.pathText, Path.ofString_text (hproper _ hpath)]
  exact hlabels _ hpath

/-- A run with a report prints what can be shown of it. -/
theorem output_run (width : Nat) {args : List String} {request : Request} {settings : Settings}
    {files : List Path} (hrequest : workspace.request args = .ok request)
    (hpretty : request.pretty = true)
    (hsettings : (workspace.loadSettings request.target).value = .ok settings)
    (hfiles : (workspace.targetFiles request.target).value = .ok files) :
    (workspace.run width args).value.output =
      (Report.render width
        (workspace.report
          (workspace.analyze [namingRule (request.style.getD settings.style)] files).value files
          request.verbose).1).1 := by
  rw [value_run_of_files hrequest hsettings hfiles, present, if_pos hpretty]
  rcases workspace.report _ files request.verbose with ⟨blocks, _ | pathFault⟩ <;>
    rcases hrender : Report.render width blocks with ⟨output, _ | fault⟩ <;>
    simp [hrender, Outcome.ofFault]

end Workspace

/-- **A file is shown as clean exactly if nothing was found in it.**  That it was read, that every
rule went through it and that none found anything is true of all files that are shown as clean
exactly if all collected files can be read, and no rule fails on a file in which the others find
nothing.  A run with a report shows the collected files in this way, and since it has one rule, what
it shows as clean has passed exactly if all collected files can be read and the rule fails on none
of them. -/
theorem run_clean_passes_iff (workspace : Workspace) (files : List Path)
    (hproper : ∀ path ∈ files, path.IsProper) :
    (∀ rules : List Rule, (∀ rule ∈ rules, rule.KeepsPath) →
      (∀ path, path ∈ Report.cleanPaths (workspace.analyze rules files).value files ↔
        path ∈ files ∧ workspace.IsQuiet rules path) ∧
      ((∀ path ∈ Report.cleanPaths (workspace.analyze rules files).value files,
          workspace.Passes rules path) ↔
        ∀ path ∈ files, ∃ file, workspace.fileAt? path = some file ∧
          ∀ rule ∈ rules, (∃ fault, (rule.run file).value = .error fault) →
            ∃ other ∈ rules, ∃ found, (other.run file).value = .ok found ∧ found ≠ [])) ∧
    ∀ (width : Nat) (args : List String) (request : Request) (settings : Settings) (style : Style),
      workspace.request args = .ok request → request.pretty = true →
      (workspace.loadSettings request.target).value = .ok settings →
      (workspace.targetFiles request.target).value = .ok files → files ≠ [] →
      (∀ path ∈ files, ∃ shown, workspace.label path = .ok shown) →
      style = request.style.getD settings.style →
      ∃ (blocks : List Report.Block) (rows : List (String × Report.FileRow)),
        (workspace.run width args).value.output = (Report.render width blocks).1 ∧
        rows.map Prod.snd =
          Report.fileRows (workspace.analyze [namingRule style] files).value files ∧
        (∀ row ∈ rows, workspace.label row.2.path = .ok row.1) ∧
        Report.framed blocks =
          [(none, .table (Report.fileTable rows)),
            (some "Summary", .content (.markup
              (Report.summaryText (workspace.analyze [namingRule style] files).value)))] ∧
        ((∀ path ∈ Report.cleanPaths (workspace.analyze [namingRule style] files).value files,
            workspace.Passes [namingRule style] path) ↔
          ∀ path ∈ files, ∃ file found, workspace.fileAt? path = some file ∧
            ((namingRule style).run file).value = .ok found) := by
  constructor
  · intro rules hrules
    exact ⟨fun path => Workspace.mem_cleanPaths_iff hrules hproper,
      Workspace.forall_passes_iff hrules hproper⟩
  · rintro width args request settings style hrequest hpretty hsettings htarget hfiles hshown rfl
    have hrule : ∀ rule ∈ [namingRule (request.style.getD settings.style)], rule.KeepsPath :=
      List.forall_mem_singleton.2 (keepsPath_namingRule _)
    have houtput := Workspace.output_run width hrequest hpretty hsettings htarget
    obtain ⟨rows, hrows, hlabels, hframed⟩ := Report.framed_document hfiles
      (Workspace.snd_report_analyze hrule hproper hshown request.verbose)
    refine ⟨_, rows, houtput, hrows, hlabels, hframed, ?_⟩
    rw [Workspace.forall_passes_iff hrule hproper]
    refine forall₂_congr fun path _ => exists_congr fun file => ?_
    rw [exists_and_left]
    refine and_congr_right fun _ => ?_
    -- Where the only rule fails, no other one can have found something.
    cases hrun : ((namingRule (request.style.getD settings.style)).run file).value <;> simp [hrun]

/-- Two empty sources, one of which may be sealed. -/
def sealableWorkspace (readable : Bool) : Workspace where
  files := { root := [("a.rb", .file []), ("b.rb", .file [] readable)] }
  directory := Path.rootDirectory
  parse := Parsed.blank

/-- The sources of `sealableWorkspace`. -/
def sealableFiles : List Path := [⟨.root, ["a.rb"]⟩, ⟨.root, ["b.rb"]⟩]

theorem isProper_sealableFiles : ∀ path ∈ sealableFiles, path.IsProper := by
  unfold Path.IsProper
  decide

section

variable (readable : Bool)

theorem request_sealableWorkspace :
    (sealableWorkspace readable).request ["analyze", ".", "--pretty"] =
      .ok { target := Path.rootDirectory, pretty := true } := by
  cbv

theorem targetFiles_sealableWorkspace :
    ((sealableWorkspace readable).targetFiles Path.rootDirectory).value = .ok sealableFiles := by
  cbv

theorem loadSettings_sealableWorkspace :
    ((sealableWorkspace readable).loadSettings Path.rootDirectory).value = .ok {} := by
  cbv

theorem labels_sealableWorkspace :
    ∀ path ∈ sealableFiles, ∃ shown, (sealableWorkspace readable).label path = .ok shown := by
  simp only [sealableFiles, List.forall_mem_cons]
  exact ⟨⟨"a.rb", by cbv⟩, ⟨"b.rb", by cbv⟩, by simp⟩

end

/-- An empty source has nothing to find. -/
theorem passes_sealableWorkspace :
    ∀ path ∈ sealableFiles, (sealableWorkspace true).Passes [namingRule .disallowed] path := by
  intro path hpath
  have hread : (sealableWorkspace true).read path = .ok [] := by
    rcases List.mem_pair.1 hpath with rfl | rfl <;> cbv
  refine ⟨⟨path, [], (Parsed.blank []).root, false⟩, ?_, List.forall_mem_singleton.2 ?_⟩
  · rw [Workspace.fileAt?, hread]
    rfl
  · cbv

theorem run_clean_passes_sealableWorkspace :
    (∀ path ∈ sealableFiles, path.IsProper) ∧
      (∃ blocks rows summary,
        ((sealableWorkspace true).run 40 ["analyze", ".", "--pretty"]).value.output =
            (Report.render 40 blocks).1 ∧
          rows.map Prod.snd = Report.fileRows
            ((sealableWorkspace true).analyze [namingRule .disallowed] sealableFiles).value
            sealableFiles ∧
          Report.framed blocks = [(none, .table (Report.fileTable rows)), summary]) ∧
      ∀ path, path ∈ Report.cleanPaths
          ((sealableWorkspace true).analyze [namingRule .disallowed] sealableFiles).value
          sealableFiles ↔ path ∈ sealableFiles := by
  obtain ⟨hrules, hrun⟩ :=
    run_clean_passes_iff (sealableWorkspace true) sealableFiles isProper_sealableFiles
  obtain ⟨blocks, rows, houtput, hrows, -, hframed, -⟩ := hrun 40 _ _ _ .disallowed
    (request_sealableWorkspace true) rfl (loadSettings_sealableWorkspace true)
    (targetFiles_sealableWorkspace true) (by decide) (labels_sealableWorkspace true) rfl
  refine ⟨isProper_sealableFiles, ⟨blocks, rows, _, houtput, hrows, hframed⟩, fun path => ?_⟩
  rw [(hrules [namingRule .disallowed] (by simpa using keepsPath_namingRule _)).1 path,
    and_iff_left_iff_imp]
  intro hpath file hfile rule hrule found hfound
  obtain ⟨file', hfile', hpassed⟩ := passes_sealableWorkspace path hpath
  obtain rfl : file' = file := Option.some.inj (hfile'.symm.trans hfile)
  simpa [hpassed rule hrule] using hfound.symm

/-- A file that must not be read does not pass, and neither does one on which a rule fails; a report
shows both as clean. -/
theorem run_unread_shown_clean :
    (sealableWorkspace false).read ⟨.root, ["b.rb"]⟩ = .error .denied ∧
      (∃ blocks rows findings summary,
        ((sealableWorkspace false).run 40 ["analyze", ".", "--pretty"]).value.output =
            (Report.render 40 blocks).1 ∧
          rows.map Prod.snd = Report.fileRows findings sealableFiles ∧
          Report.framed blocks = [(none, .table (Report.fileTable rows)), summary] ∧
          ⟨.root, ["b.rb"]⟩ ∈ Report.cleanPaths findings sealableFiles) ∧
      ¬ (sealableWorkspace false).Passes [namingRule .disallowed] ⟨.root, ["b.rb"]⟩ ∧
      ⟨.relative, ["a.rb"]⟩ ∈ Report.cleanPaths
        (twinWorkspace.analyze [delicateRule] [⟨.relative, ["a.rb"]⟩]).value
        [⟨.relative, ["a.rb"]⟩] ∧
      ¬ twinWorkspace.Passes [delicateRule] ⟨.relative, ["a.rb"]⟩ := by
  have hdenied : (sealableWorkspace false).read ⟨.root, ["b.rb"]⟩ = .error .denied := by cbv
  have houtput := Workspace.output_run 40 (request_sealableWorkspace false) rfl
    (loadSettings_sealableWorkspace false) (targetFiles_sealableWorkspace false)
  obtain ⟨rows, hrows, -, hframed⟩ := Report.framed_document (by decide)
    (Workspace.snd_report_analyze (List.forall_mem_singleton.2 (keepsPath_namingRule _))
      isProper_sealableFiles (labels_sealableWorkspace false) false)
  have hfails (file : SourceFile) (h : twinWorkspace.fileAt? ⟨.relative, ["a.rb"]⟩ = some file) :
      (delicateRule.run file).value = .error (.failed "boom") := by
    simp only [Workspace.fileAt?, read_twinWorkspace.1, Option.some.injEq] at h
    have hname : file.path.name = "a.rb" := by rw [← h]; decide
    simp [delicateRule, hname]
  refine ⟨hdenied, ⟨_, rows, _, _, houtput, hrows, hframed, ?_⟩, ?_, ?_, ?_⟩
  · refine (Workspace.mem_cleanPaths_iff ?_ isProper_sealableFiles).2
      ⟨by decide, fun file hfile => ?_⟩
    · exact List.forall_mem_singleton.2 (keepsPath_namingRule _)
    · simp [Workspace.fileAt?, hdenied] at hfile
  · rintro ⟨file, hfile, -⟩
    simp [Workspace.fileAt?, hdenied] at hfile
  · refine (Workspace.mem_cleanPaths_iff ?_ ?_).2 ⟨by simp, fun file hfile => ?_⟩
    · exact List.forall_mem_singleton.2 keepsPath_delicateRule
    · unfold Path.IsProper
      decide
    · simp [hfails file hfile]
  · rintro ⟨file, hfile, hpassed⟩
    have hrun := hpassed delicateRule (by simp)
    rw [hfails file hfile] at hrun
    cases hrun

end MemoAudit
