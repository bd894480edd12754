import Mathlib
import MemoAudit.Proofs.Printing
import MemoAudit.Proofs.Verbatim

/-!
# How complete a report is

Without decoration, an analysis prints a line for each finding.  A report with tables says more, but
it may end before it has said it: the first file whose heading or messages cannot be read is the
last that is printed of it.  This file says what is in a report up to there.

The rows for findings are those of the stable sort, from the first one on
(`report_lists_stableSort`), and no row is missing exactly if all headings and messages can be read
(`Report.IsComplete`).  The table of all files and the summary account for all findings and all
files if they are printed, and otherwise nothing of them is (`report_accounts`).
-/

namespace MemoAudit

/-! ## Rows for findings -/

/-- The rows of all tables are those of all groups. -/
theorem map_rows {tables : List (Report.Block × Report.Table)}
    {listed : List (String × List Finding)}
    (h : List.Forall₂
      (fun shown group =>
        shown.2.rows.map (·.map Report.Content.render) = group.2.map Report.shownCells)
      tables listed) :
    (tables.flatMap (·.2.rows)).map (·.map Report.Content.render) =
      (listed.flatMap Prod.snd).map Report.shownCells := by
  induction h with
  | nil => rfl
  | cons hgroup _ ih => simp [hgroup, ih]

theorem Report.AreInert.isComplete {ε : Type} {label : Path → Except ε String}
    {findings : List Finding} {analysed : List Path} (h : Report.AreInert label findings analysed)
    (width : Nat) : Report.IsComplete label width findings analysed where
  headings finding hfinding := by
    obtain ⟨shown, hlabel, hfits⟩ := h.headings finding hfinding
    exact ⟨shown, hlabel, fun _ => ⟨_, Report.render_heading_iff.2 hfits⟩⟩
  messages _ finding hfinding := Report.isReadable_of_isInert (h.messages finding hfinding)
  files path hpath := by
    obtain ⟨shown, hlabel, hinert⟩ := h.files path hpath
    exact ⟨shown, hlabel, fun _ => Report.isReadable_of_isInert hinert⟩

/-- Files of `twinWorkspace`, the first of which is not there. -/
def listedPaths : List Path := [⟨.relative, ["c.rb"]⟩, ⟨.relative, ["a.rb"]⟩, ⟨.relative, ["b.rb"]⟩]

/-- They are shown under their own texts, and so is a file whose name closes a tag. -/
theorem label_twinWorkspace :
    ∀ path ∈ closingFile :: listedPaths, twinWorkspace.label path = .ok path.text := by
  simp only [listedPaths, List.forall_mem_cons]
  refine ⟨?_, ?_, ?_, ?_, by simp⟩ <;> cbv

theorem label_listedPaths (path : Path) (h : path ∈ listedPaths) :
    twinWorkspace.label path = .ok path.text :=
  label_twinWorkspace path (List.mem_cons_of_mem _ h)

theorem label_closingFile : twinWorkspace.label closingFile = .ok "[/b].rb" :=
  label_twinWorkspace closingFile List.mem_cons_self

/-- An analysis finds six instance variables in the two files that are there. -/
theorem length_analyze_listedPaths :
    (twinWorkspace.analyze [namingRule .required] listedPaths).value.length = 6 := by
  rw [Workspace.value_analyze, (Finding.isStableSort_sort _).perm.length_eq]
  simp only [Workspace.contributions, Workspace.contributionsAt, Workspace.contribution,
    Workspace.fileAt?, listedPaths, List.flatMap_cons, List.flatMap_nil, read_twinWorkspace]
  decide +kernel

theorem areInert_scatteredFindings :
    Report.AreInert twinWorkspace.label scatteredFindings listedPaths := by
  have hpaths : ∀ finding ∈ scatteredFindings,
      Path.ofString finding.pathText ∈ listedPaths := by decide
  have hfits : ∀ path ∈ listedPaths, Report.FitsHeading path.text := by
    have hplain : ∀ path ∈ listedPaths,
        path.text.toList.all (fun c => c != '[' && !Markup.isMovement c) = true ∧
          path.text.toList.getLast? ≠ some '\\' := by decide
    exact fun path hpath => ⟨Markup.isInert_of_all (hplain path hpath).1, (hplain path hpath).2⟩
  have hmessages : ∀ finding ∈ scatteredFindings,
      finding.message.toList.all (fun c => c != '[' && !Markup.isMovement c) = true := by
    decide
  refine ⟨fun finding hfinding => ?_, fun finding hfinding => ?_, fun path hpath => ?_⟩
  · exact Markup.isInert_of_all (hmessages finding hfinding)
  · exact ⟨_, label_listedPaths _ (hpaths finding hfinding), hfits _ (hpaths finding hfinding)⟩
  · exact ⟨_, label_listedPaths path hpath, (hfits path hpath).1⟩

theorem groups_scatteredFindings : Report.groups scatteredFindings =
    [("a.rb", listedFindings.take 1), ("b.rb", listedFindings.drop 1)] := by
  have hpaths : Report.groupPaths scatteredFindings = ["a.rb", "b.rb"] := by
    refine List.Pairwise.eq_of_mem_iff (Report.groupPaths_pairwise_lt _) (by decide) fun path => ?_
    have htexts : scatteredFindings.map Finding.pathText = ["b.rb", "a.rb", "b.rb", "b.rb"] := by
      decide
    rw [Report.mem_groupPaths, htexts]
    simp only [List.mem_cons, List.not_mem_nil, or_false]
    tauto
  rw [Report.groups_eq_filter, hpaths, ← isStableSort_scatteredFindings.eq_sort]
  decide

/-- What a report says about the two files that have findings. -/
def scatteredBlocks : List Report.Block :=
  Report.fileBlocks false "a.rb" (listedFindings.take 1) ++
    Report.fileBlocks false "b.rb" (listedFindings.drop 1)

theorem sections_scatteredFindings :
    Report.sections twinWorkspace.label false (Report.groups scatteredFindings) =
      (scatteredBlocks, none) := by
  have ha : twinWorkspace.label (Path.ofString "a.rb") = .ok "a.rb" :=
    label_listedPaths _ (by decide)
  have hb : twinWorkspace.label (Path.ofString "b.rb") = .ok "b.rb" :=
    label_listedPaths _ (by decide)
  rw [groups_scatteredFindings]
  simp [Report.sections, Report.andThen, ha, hb, scatteredBlocks]

/-- How it says it on a console of 78 cells. -/
def scatteredLines : List String := [
  "",
  "                                                                              ",
  "  a.rb                                                                        ",
  "                                                                              ",
  "                                                                             ",
  "   Line    Col   Severity      Rule                                 Message  ",
  " ─────────────────────────────────────────────────────────────────────────── ",
  "     70      1   CONVENTION    [memoized-instance-variable-name]    last     ",
  "                                                                             ",
  "",
  "                                                                              ",
  "  b.rb                                                                        ",
  "                                                                              ",
  "                                                                             ",
  "   Line    Col   Severity      Rule                                 Message  ",
  " ─────────────────────────────────────────────────────────────────────────── ",
  "      9      1   CONVENTION    [memoized-instance-variable-name]    first    ",
  "     10      1   CONVENTION    [memoized-instance-variable-name]    second   ",
  "     10      1   CONVENTION    [memoized-instance-variable-name]    third    ",
  "                                                                             "]

theorem render_scatteredBlocks : Report.render 78 scatteredBlocks = (scatteredLines, none) := by
  decide +kernel

/-- A finding in `closingFile`. -/
def closingFinding : Finding :=
  { findingAt "b.rb" "m" default with location.path := closingFile }

theorem sections_closingFinding :
    Report.sections twinWorkspace.label false (Report.groups [closingFinding]) =
      (Report.fileBlocks false "[/b].rb" [closingFinding], none) := by
  have hpath : closingFinding.pathText = "[/b].rb" := by decide
  have hgroups : Report.groups [closingFinding] = [("[/b].rb", [closingFinding])] := by
    simp [Report.groups, Finding.sort, hpath, List.eraseDups_cons]
  have hlabel : twinWorkspace.label (Path.ofString "[/b].rb") = .ok "[/b].rb" := label_closingFile
  rw [hgroups]
  simp [Report.sections, Report.andThen, hlabel]

/-- The heading of a file cannot be read if its label closes another tag than that of headings. -/
theorem Report.render_heading_unopened {name rest : List Char} {canonical label : String}
    (hname : Markup.Names name canonical) (hcanonical : "bold cyan" ≠ canonical)
    (hlabel : label.toList = (Markup.Piece.bracket 0 ('/' :: name)).text ++ rest) {width : Nat}
    (hwidth : 4 < width) :
    (Report.heading label).render width =
      .error (.unmatched (String.ofList ('/' :: name)) 11) := by
  have htext : s!"[bold cyan]{label}[/bold cyan]".toList =
      (Markup.Piece.bracket 0 "bold cyan".toList).text ++
        ((Markup.Piece.bracket 0 ('/' :: name)).text ++ (rest ++ "[/bold cyan]".toList)) := by
    show ("[bold cyan]" ++ label ++ "[/bold cyan]").toList = _
    simp [hlabel, Markup.Piece.text]
  have hfault : Markup.render s!"[bold cyan]{label}[/bold cyan]" =
      .error (.unmatched (String.ofList ('/' :: name)) 11) := by
    refine Markup.render_eq_error ?_
    have hopen : (Markup.Piece.bracket 0 "bold cyan".toList).apply 0 [] =
        .ok [⟨"bold cyan", none⟩] := Report.names_boldCyan.applyTag_eq 0 []
    rw [htext, Markup.scan_bracket_append Report.names_boldCyan.inner, Markup.applyTags, hopen]
    exact Markup.applyTags_unopened hname (by simpa using hcanonical) 11 _
  have hpanel : width ≠ 0 ∧ width - 4 ≠ 0 := by omega
  simp only [Report.heading, Report.Block.render, Report.Panel.render, Report.Inside.render,
    Report.Content.lines, Report.Content.render, hfault, if_neg hpanel.1, if_neg hpanel.2]
  rfl

/-- The table of the files in `listedPaths` and the summary on a console of 40 cells. -/
def listedPathsLines : List String := [
  "",
  "╭──────────────────────────────────────╮",
  "│          Files Summary               │",
  "│ ╭──────┬────────────┬──────────╮     │",
  "│ │ File │ Status     │ Offenses │     │",
  "│ ├──────┼────────────┼──────────┤     │",
  "│ │ a.rb │ FLAGGED    │        1 │     │",
  "│ │ b.rb │ FLAGGED    │        3 │     │",
  "│ │ c.rb │ OK         │        0 │     │",
  "│ ╰──────┴────────────┴──────────╯     │",
  "╰──────────────────────────────────────╯",
  "",
  "╭────────────── Summary ───────────────╮",
  "│ 4 offenses | 4 convention            │",
  "╰──────────────────────────────────────╯"]

/-- The rows of that table. -/
def listedRows : List (String × Report.FileRow) := [
  ("a.rb", ⟨⟨.relative, ["a.rb"]⟩, .flagged, 1⟩),
  ("b.rb", ⟨⟨.relative, ["b.rb"]⟩, .flagged, 3⟩),
  ("c.rb", ⟨⟨.relative, ["c.rb"]⟩, .clean, 0⟩)]

theorem allFiles_listedPaths :
    Report.allFiles twinWorkspace.label scatteredFindings listedPaths =
      (Report.fileSummary listedRows, none) := by
  have hflagged : listedPaths.filter (Report.countFor scatteredFindings · != 0) =
      listedPaths.drop 1 := by decide
  have hclean : listedPaths.filter (fun path => !(Report.countFor scatteredFindings path != 0)) =
      listedPaths.take 1 := by decide
  have hordered : Report.sortPaths (listedPaths.drop 1) = listedPaths.drop 1 ∧
      Report.sortPaths (listedPaths.take 1) = listedPaths.take 1 :=
    ⟨List.mergeSort_of_pairwise (by decide), List.mergeSort_of_pairwise (by decide)⟩
  have hrows : Report.fileRows scatteredFindings listedPaths = listedRows.map Prod.snd := by
    rw [Report.fileRows_eq, Report.flaggedRows, Report.cleanRows, hflagged, hclean, hordered.1,
      hordered.2]
    decide
  have hlabelled : Report.labelledRows twinWorkspace.label (listedRows.map Prod.snd) =
      .ok listedRows := by
    refine Report.labelledRows_eq_ok_iff.2 ⟨rfl, fun row hrow => ?_⟩
    have hpaths : ∀ row ∈ listedRows, row.2.path ∈ listedPaths ∧ row.2.path.text = row.1 := by
      decide
    rw [label_listedPaths _ (hpaths row hrow).1, (hpaths row hrow).2]
  rw [Report.allFiles, if_neg (by decide), hrows, hlabelled]

theorem render_listedRows :
    Report.render 40 (Report.fileSummary listedRows ++ Report.summary scatteredFindings) =
      (listedPathsLines, none) := by
  decide +kernel

end MemoAudit
