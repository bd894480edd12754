import Mathlib
import MemoAudit.Proofs.Readability

/-!
# What a report shows as it is

Findings and files come into a report in several ways.  Snippets and advice are escaped, rules and
severities are styled without being read, and numbers cannot be misread.  Headings, messages and the
names of files are handed over as markup.

So a report has two sides.  With what is escaped, styled or constant there is nothing to be said
about the findings.  For the three texts that are read, on the other hand, there is exactly one
condition, namely that they are inert (`Report.AreInert`); it is necessary, since a text with
anything to be read in it is shown as another one.
-/

namespace MemoAudit

namespace Report

open Markup (IsInert)

/-! ## Reports -/

section

variable {ε : Type} {label : Path → Except ε String} {findings : List Finding}
  {analysed : List Path} {verbose : Bool}

/-- All files of a report have labels, and nothing of what it shows of findings and files is read as
anything but itself. -/
structure AreInert (label : Path → Except ε String) (findings : List Finding)
    (analysed : List Path) : Prop where
  messages : ∀ finding ∈ findings, IsInert finding.message.toList
  headings : ∀ finding ∈ findings,
    ∃ shown, label (Path.ofString finding.pathText) = .ok shown ∧ FitsHeading shown
  files : ∀ path ∈ analysed, ∃ shown, label path = .ok shown ∧ IsInert shown.toList

theorem AreInert.snd_document (h : AreInert label findings analysed) :
    (document label findings analysed verbose).2 = none := by
  refine snd_document_eq_none_iff.2 ⟨fun finding hfinding => ?_, fun path hpath => ?_⟩
  · obtain ⟨shown, hlabel, -⟩ := h.headings finding hfinding
    exact ⟨shown, hlabel⟩
  · obtain ⟨shown, hlabel, -⟩ := h.files path hpath
    exact ⟨shown, hlabel⟩

theorem AreInert.isReadable_sections (h : AreInert label findings analysed) {block : Block}
    (hblock : block ∈ (sections label verbose (groups findings)).1) : block.IsReadable := by
  cases isSectionBlock_of_mem hblock with
  | blank => trivial
  | @heading _ shown hgroup hlabel =>
    obtain ⟨shown', hlabel', hfits⟩ := forall_groups_iff (p := fun path =>
      ∃ shown, label path = .ok shown ∧ FitsHeading shown) |>.2 h.headings _ hgroup
    obtain rfl : shown = shown' := Except.ok.inj (hlabel.symm.trans hlabel')
    exact ⟨_, render_heading_iff.2 hfits⟩
  | table hgroup =>
    refine ⟨by simp [findingTable], isReadable_findingTable fun finding hfinding => ?_⟩
    refine isReadable_of_isInert (h.messages finding ?_)
    rw [← (Finding.isStableSort_sort findings).perm.mem_iff, ← flatMap_groups]
    exact List.mem_flatMap_of_mem hgroup hfinding
  | quote hquote => exact isReadable_quoteBlock hquote
  | advice hadvice => exact isReadable_adviceBlock hadvice

theorem AreInert.isReadable_allFiles (h : AreInert label findings analysed) {block : Block}
    (hblock : block ∈ (allFiles label findings analysed).1) : block.IsReadable := by
  unfold allFiles at hblock
  split at hblock
  · cases hblock
  · cases hrows : labelledRows label (fileRows findings analysed) with
    | error fault => simp [hrows] at hblock
    | ok rows =>
      obtain ⟨hsnd, hlabels⟩ := labelledRows_eq_ok_iff.1 hrows
      rw [hrows] at hblock
      rcases List.mem_pair.1 hblock with rfl | rfl
      · trivial
      · refine ⟨isReadable_title, isReadable_fileTable fun row hrow => isReadable_of_isInert ?_⟩
        have hmem : row.2 ∈ fileRows findings analysed := hsnd ▸ List.mem_map_of_mem hrow
        obtain ⟨shown, hlabel, hinert⟩ := forall_fileRows_iff (p := fun path =>
          ∃ shown, label path = .ok shown ∧ IsInert shown.toList) |>.2 h.files row.2 hmem
        rwa [Except.ok.inj ((hlabels row hrow).symm.trans hlabel)]

theorem mem_andThen {blocks rest : List Block × Option ε} {block : Block}
    (h : block ∈ (andThen blocks rest).1) : block ∈ blocks.1 ∨ block ∈ rest.1 := by
  obtain ⟨front, _ | fault⟩ := blocks
  · exact List.mem_append.1 h
  · exact .inl h

theorem AreInert.isReadable_document (h : AreInert label findings analysed) {block : Block}
    (hblock : block ∈ (document label findings analysed verbose).1) : block.IsReadable := by
  unfold document at hblock
  split at hblock
  · obtain rfl := List.mem_singleton.1 hblock
    exact isReadable_nothingFound
  · rcases mem_andThen hblock with hblock | hblock
    · exact h.isReadable_sections hblock
    · rcases mem_andThen hblock with hblock | hblock
      · exact h.isReadable_allFiles hblock
      · exact isReadable_summary hblock

end

/-! ## Headings, messages and files -/

/-- The text of a block that has one. -/
def Block.content? : Block → Option Content
  | .markup text => some (.markup text)
  | .panel shown =>
    match shown.inside with
    | .content content => some content
    | .table _ => none
  | .blank | .table _ => none

/-- The headings of blocks, which stand above the tables that are handed to the console. -/
def headings (blocks : List Block) : List Content :=
  (tables blocks).filterMap fun shown => shown.1.content?

/-- The last cells of the rows of these tables, which hold the messages. -/
def messageCells (blocks : List Block) : List Content := (rows blocks).filterMap List.getLast?

/-- The first cells of the rows of a framed table. -/
def Inside.firstCells : Inside → List Content
  | .content _ => []
  | .table shown => shown.rows.filterMap List.head?

/-- The first cells of the rows of framed tables, which hold the files. -/
def fileCells (blocks : List Block) : List Content :=
  (framed blocks).flatMap fun shown => shown.2.firstCells

section

variable {ε : Type} {label : Path → Except ε String} {findings : List Finding}
  {analysed : List Path} {verbose : Bool}

/-- The content is shown as the label of the path. -/
def Content.ShowsLabel (label : Path → Except ε String) (content : Content) (path : Path) : Prop :=
  ∃ shown, label path = .ok shown ∧ content.render = .ok shown.toList

theorem headings_document : headings (document label findings analysed verbose).1 =
    (labelled label (groups findings)).map fun group =>
      .markup s!"[bold cyan]{group.1}[/bold cyan]" := by
  rw [headings, tables_document, List.filterMap_map, ← List.filterMap_eq_map]
  rfl

/-- The headings show the labels of their files. -/
theorem headings_iff : List.Forall₂ (fun content group =>
      Content.ShowsLabel label content (Path.ofString group.1))
      (headings (document label findings analysed verbose).1) (groups findings) ↔
    ∀ finding ∈ findings,
      ∃ shown, label (Path.ofString finding.pathText) = .ok shown ∧ FitsHeading shown := by
  rw [headings_document, List.forall₂_map_left_iff, forall₂_labelled_iff, ← forall_groups_iff
    (p := fun path => ∃ shown, label path = .ok shown ∧ FitsHeading shown)]
  refine forall₂_congr fun group _ => ⟨?_, ?_⟩
  · rintro ⟨shown, hlabel, shown', hlabel', hrender⟩
    obtain rfl : shown = shown' := Except.ok.inj (hlabel.symm.trans hlabel')
    exact ⟨shown, hlabel, render_heading_iff.1 hrender⟩
  · rintro ⟨shown, hlabel, hfits⟩
    exact ⟨shown, hlabel, shown, hlabel, render_heading_iff.2 hfits⟩

theorem messageCells_document
    (hlabels : ∀ finding ∈ findings, HasLabel label (Path.ofString finding.pathText)) :
    messageCells (document label findings analysed verbose).1 =
      (Finding.sort findings).map fun finding => .markup finding.message := by
  have hfound : (labelled label (groups findings)).flatMap Prod.snd = Finding.sort findings := by
    rw [← flatMap_groups, List.flatMap_def, List.flatMap_def,
      map_snd_labelled (forall_groups_iff.2 hlabels)]
  have hrows : rows (document label findings analysed verbose).1 =
      (Finding.sort findings).map findingRow := by
    rw [rows, tables_document, List.flatMap_map, ← hfound, List.map_flatMap]
    rfl
  rw [messageCells, hrows, List.filterMap_map, ← List.filterMap_eq_map]
  rfl

/-- In a report that is whole, the cells of files hold their labels. -/
theorem exists_fileCells_document (hwhole : (document label findings analysed verbose).2 = none) :
    ∃ rows : List (String × FileRow), rows.map Prod.snd = fileRows findings analysed ∧
      (∀ row ∈ rows, label row.2.path = .ok row.1) ∧
      fileCells (document label findings analysed verbose).1 =
        rows.map fun row => .markup row.1 := by
  by_cases hanalysed : analysed = []
  · -- Without analysed files there is no table in a frame.
    subst hanalysed
    refine ⟨[], by simp [fileRows, sortPaths], by simp, ?_⟩
    obtain ⟨hlabels, -⟩ := snd_document_eq_none_iff.1 hwhole
    rw [← forall_groups_iff, ← @snd_sections_eq_none_iff _ _ verbose] at hlabels
    unfold fileCells document
    split
    · rfl
    · rw [andThen_of_none hlabels, framed_append, framed_sections, allFiles, if_pos rfl]
      rfl
  · obtain ⟨rows, hsnd, hlabels, hframed⟩ := framed_document hanalysed hwhole
    refine ⟨rows, hsnd, hlabels, ?_⟩
    simp [fileCells, hframed, Inside.firstCells, fileTable, List.filterMap_map, Function.comp_def]

/-- The cells of files show the labels of the files. -/
theorem fileCells_iff (hwhole : (document label findings analysed verbose).2 = none) :
    List.Forall₂ (fun content row => Content.ShowsLabel label content row.path)
      (fileCells (document label findings analysed verbose).1) (fileRows findings analysed) ↔
    ∀ path ∈ analysed, ∃ shown, label path = .ok shown ∧ IsInert shown.toList := by
  obtain ⟨rows, hsnd, hlabels, hcells⟩ := exists_fileCells_document hwhole
  rw [hcells, ← @forall_fileRows_iff findings _
    fun path => ∃ shown, label path = .ok shown ∧ IsInert shown.toList, ← hsnd,
    List.forall₂_map_left_iff, List.forall₂_map_right_iff, List.forall₂_same, List.forall_mem_map]
  refine forall₂_congr fun row hrow => ?_
  simp only [Content.ShowsLabel, hlabels row hrow, Except.ok.injEq, exists_eq_left',
    render_markup_iff]

end

end Report

/-- **A report shows findings and files as they are exactly if they are inert.**  A report is whole,
is shown without a fault at every width, and its headings, messages and files are shown as the
labels and the messages that they stand for, exactly if all files have labels and each of these
texts is inert: no bracket in it has the form of a tag, no backslash stands in front of an opening
bracket, and nothing in it moves on a terminal; and no heading ends in a backslash.  All else in a
report is never at fault, whatever the findings quote.  In a workspace, a report breaks off exactly
if a file that it names has no label, be it a file with findings or an analysed one. -/
theorem report_verbatim_iff (findings : List Finding) (analysed : List Path) (verbose : Bool) :
    (∀ (ε : Type) (label : Path → Except ε String),
      (Report.document label findings analysed verbose).2 = none ∧
        (∀ width,
          (Report.render width (Report.document label findings analysed verbose).1).2 = none) ∧
        List.Forall₂
          (fun content group =>
            Report.Content.ShowsLabel label content (Path.ofString group.1))
          (Report.headings (Report.document label findings analysed verbose).1)
          (Report.groups findings) ∧
        (Report.messageCells (Report.document label findings analysed verbose).1).map
            Report.Content.render =
          (Finding.sort findings).map (fun finding => .ok finding.message.toList) ∧
        List.Forall₂ (fun content row => Report.Content.ShowsLabel label content row.path)
          (Report.fileCells (Report.document label findings analysed verbose).1)
          (Report.fileRows findings analysed) ↔
      Report.AreInert label findings analysed) ∧
    ∀ workspace : Workspace,
      (workspace.report findings analysed verbose).2 = none ↔
        (∀ finding ∈ findings,
          ∃ shown, workspace.label (Path.ofString finding.pathText) = .ok shown) ∧
        ∀ path ∈ analysed, ∃ shown, workspace.label path = .ok shown := by
  refine ⟨fun ε label => ?_, fun workspace => Report.snd_document_eq_none_iff⟩
  have hmessages (hwhole : (Report.document label findings analysed verbose).2 = none) :
      (Report.messageCells (Report.document label findings analysed verbose).1).map
          Report.Content.render =
        (Finding.sort findings).map (fun finding => .ok finding.message.toList) ↔
      ∀ finding ∈ findings, Markup.IsInert finding.message.toList := by
    rw [Report.messageCells_document (Report.snd_document_eq_none_iff.1 hwhole).1]
    simp only [List.map_map, List.map_inj_left, Function.comp_apply, Report.render_markup_iff,
      (Finding.isStableSort_sort findings).perm.mem_iff]
  constructor
  · rintro ⟨hwhole, -, hheadings, hcells, hfiles⟩
    exact ⟨(hmessages hwhole).1 hcells, Report.headings_iff.1 hheadings,
      (Report.fileCells_iff hwhole).1 hfiles⟩
  · intro h
    exact ⟨h.snd_document, Report.render_snd_eq_none fun block => h.isReadable_document,
      Report.headings_iff.2 h.headings, (hmessages h.snd_document).2 h.messages,
      (Report.fileCells_iff h.snd_document).2 h.files⟩

/-- Files shown by the texts of their paths. -/
def textLabel (path : Path) : Except Empty String := .ok path.text

/-- Numbers in brackets are no tags. -/
theorem isInert_numbered :
    Markup.IsInert "[1].rb".toList ∧ Markup.IsInert "a[0] is odd".toList := by
  constructor <;> refine Markup.isInert_iff.2 ⟨?_, by decide, by decide⟩ <;> cbv

/-- Brackets alone do no harm: a file and a message with a number in brackets are shown as they are,
at every width. -/
theorem report_verbatim_numbered :
    Report.AreInert textLabel [findingAt "[1].rb" "a[0] is odd" ⟨1, by decide⟩]
        [⟨.relative, ["[1].rb"]⟩] ∧
      ∀ width, (Report.render width (Report.document textLabel
        [findingAt "[1].rb" "a[0] is odd" ⟨1, by decide⟩] [⟨.relative, ["[1].rb"]⟩] true).1).2 =
          none := by
  have hinert : Report.AreInert textLabel [findingAt "[1].rb" "a[0] is odd" ⟨1, by decide⟩]
      [⟨.relative, ["[1].rb"]⟩] := by
    constructor <;> simp only [List.forall_mem_singleton]
    · exact isInert_numbered.2
    · exact ⟨"[1].rb", by decide, isInert_numbered.1, by decide⟩
    · exact ⟨"[1].rb", by decide, isInert_numbered.1⟩
  obtain ⟨-, hshown, -⟩ := ((report_verbatim_iff _ _ true).1 Empty textLabel).2 hinert
  exact ⟨hinert, hshown⟩

theorem names_b : Markup.Names ['b'] "bold" := by decide

/-- A tag at the start of a text is not shown. -/
theorem render_bracketed : Markup.render "[b]a.rb" = .ok "a.rb".toList := by
  have hrest : Markup.scan "a.rb".toList = "a.rb".toList.map .plain :=
    Markup.scan_of_forall_not_isSquare (by simp [Markup.isSquare])
  have hscan : Markup.scan "[b]a.rb".toList = .bracket 0 ['b'] :: "a.rb".toList.map .plain := by
    rw [← hrest]
    exact Markup.scan_bracket_append names_b.inner 0 "a.rb".toList
  have hopen : (Markup.Piece.bracket 0 ['b']).apply 0 [] = .ok [⟨"bold", none⟩] :=
    names_b.applyTag_eq 0 []
  rw [Markup.render_eq_ok_iff, hscan, Markup.applyTags, hopen]
  exact ⟨⟨_, Markup.applyTags_map_plain _ _ _⟩, by decide⟩

/-- A file whose path starts by closing a tag. -/
def closingFile : Path := ⟨.relative, ["[", "b].rb"]⟩

/-- The report on a single file without findings. -/
theorem Report.fst_document_singleton {ε : Type} {label : Path → Except ε String} {path : Path}
    {shown : String} (h : label path = .ok shown) :
    (Report.document label [] [path] false).1 =
      Report.fileSummary [(shown, ⟨path, .clean, 0⟩)] ++ Report.summary [] := by
  have hrows : Report.fileRows [] [path] = [⟨path, .clean, 0⟩] := by
    simp [Report.fileRows, Report.sortPaths, Report.fileRow, Report.countFor]
  have hlabelled : Report.labelledRows label [⟨path, .clean, 0⟩] =
      .ok [(shown, ⟨path, .clean, 0⟩)] :=
    Report.labelledRows_eq_ok_iff.2 ⟨rfl, List.forall_mem_singleton.2 h⟩
  have hgroups : Report.groups [] = [] := by simp [Report.groups]
  rw [Report.document, if_neg (by simp), Report.allFiles, if_neg (by simp), hrows, hlabelled,
    hgroups]
  rfl

/-- Of the table no line is printed, and nothing comes behind it. -/
theorem render_closingFile :
    Report.render 40
        (Report.fileSummary [("[/b].rb", ⟨closingFile, .clean, 0⟩)] ++ Report.summary []) =
      ([""], some (.unmatched "/b" 0)) := by
  cbv

/-- A message and a file that start with a tag are shown without it, and a file whose name closes a
tag that is not open ends the report. -/
theorem report_misreads_brackets :
    (Report.messageCells (Report.document textLabel
          [findingAt "a.rb" "[b]a.rb" ⟨1, by decide⟩] [] false).1).map Report.Content.render =
        [.ok "a.rb".toList] ∧
      (Report.fileCells (Report.document textLabel [] [⟨.relative, ["[b]a.rb"]⟩] false).1).map
          Report.Content.render =
        [.ok "a.rb".toList] ∧
      (Report.render 40 (Report.document textLabel [] [closingFile] false).1).2 =
        some (.unmatched "/b" 0) := by
  refine ⟨?_, ?_, ?_⟩
  · rw [Report.messageCells_document fun _ _ => ⟨_, rfl⟩]
    simpa [Finding.sort, findingAt, Report.Content.render] using render_bracketed
  · have hlabel : textLabel ⟨.relative, ["[b]a.rb"]⟩ = .ok "[b]a.rb" := by decide
    rw [Report.fst_document_singleton hlabel]
    show [Markup.render "[b]a.rb"] = _
    rw [render_bracketed]
  · have hlabel : textLabel closingFile = .ok "[/b].rb" := by decide
    rw [Report.fst_document_singleton hlabel, render_closingFile]

end MemoAudit
