import Mathlib
import MemoAudit.Proofs.Readability

/-!
# What of a report is printed

A report is printed block by block, and it ends at the first block that cannot be shown.  What is
printed is thus the lines of the first blocks of the report (`Report.fst_render`), and what can be
missing is only what comes at the end.

A report on findings has two parts, and they can be missing in different ways.  The findings of a
file are listed if its label and its messages can be read (`Report.IsListable`), and so are those of
all files before it; hence the rows that are printed are the first ones of the findings in the order
of listing.  The table of all files and the summary stand at the end, and are printed together or
not at all (`Report.framed_printed`).
-/

namespace MemoAudit

namespace Report

/-! ## Printing -/

/-- The lines of a block on a console of the given width, if it can be shown. -/
def Block.lines (width : Nat) (block : Block) : List String :=
  match block.render width with
  | .ok lines => lines
  | .error _ => []

/-- The blocks that are printed: those before the first one that cannot be shown. -/
def printed (width : Nat) (blocks : List Block) : List Block :=
  blocks.takeWhile fun block => (block.render width).isOk

theorem isOk_render_iff {block : Block} {width : Nat} :
    (block.render width).isOk = true ↔ ∃ lines, block.render width = .ok lines := by
  cases block.render width <;> simp [Except.isOk, Except.toBool]

theorem isPrefix_printed (width : Nat) (blocks : List Block) : printed width blocks <+: blocks :=
  List.takeWhile_prefix _

theorem fst_render (width : Nat) (blocks : List Block) :
    (render width blocks).1 = (printed width blocks).flatMap (Block.lines width) := by
  induction blocks with
  | nil => rfl
  | cons block rest ih =>
    rw [render, printed, List.takeWhile_cons]
    cases hblock : block.render width with
    | error fault => rfl
    | ok lines =>
      have hlines : block.lines width = lines := by rw [Block.lines, hblock]
      simp only [Except.isOk, Except.toBool, if_true, List.flatMap_cons, hlines, ih, printed]

/-- Behind blocks that can be shown, a report goes on as it would without them. -/
theorem render_append {width : Nat} {blocks : List Block} {lines : List String}
    (h : render width blocks = (lines, none)) (rest : List Block) :
    render width (blocks ++ rest) = (lines ++ (render width rest).1, (render width rest).2) := by
  induction blocks generalizing lines with
  | nil =>
    obtain rfl : [] = lines := congrArg Prod.fst h
    rfl
  | cons block more ih =>
    rw [render] at h
    rw [List.cons_append, render]
    cases hblock : block.render width with
    | error fault => simp [hblock] at h
    | ok shown =>
      simp only [hblock, Prod.mk.injEq] at h
      obtain ⟨rfl, hfault⟩ := h
      simp [ih (Prod.ext rfl hfault)]

theorem printed_eq_self_iff {width : Nat} {blocks : List Block} :
    printed width blocks = blocks ↔ ∀ block ∈ blocks, ∃ lines, block.render width = .ok lines := by
  simp only [printed, List.takeWhile_eq_self_iff, isOk_render_iff]

theorem printed_append (width : Nat) (blocks rest : List Block) :
    printed width (blocks ++ rest) =
      if printed width blocks = blocks then blocks ++ printed width rest
      else printed width blocks := by
  have hlength : (printed width blocks).length = blocks.length ↔ printed width blocks = blocks :=
    ⟨(isPrefix_printed width blocks).eq_of_length, congrArg List.length⟩
  rw [printed, List.takeWhile_append]
  exact if_congr hlength rfl rfl

theorem framed_eq_nil_of_prefix {front blocks : List Block} (h : front <+: blocks)
    (hblocks : framed blocks = []) : framed front = [] :=
  List.sublist_nil.1 (hblocks ▸ h.sublist.filterMap Block.framed?)

/-! ## Findings -/

section

variable {ε : Type} {label : Path → Except ε String} {findings : List Finding}
  {analysed : List Path} {verbose : Bool} {width : Nat}

/-- The findings of a file can be listed: it has a label, and what is read of its heading and of the
messages can be read.  The heading is read if the console is wider than four cells, the messages if
it is wider than eight. -/
structure IsListable (label : Path → Except ε String) (width : Nat)
    (group : String × List Finding) : Prop where
  heading : ∃ shown, label (Path.ofString group.1) = .ok shown ∧
    (4 < width → (Content.markup s!"[bold cyan]{shown}[/bold cyan]").IsReadable)
  messages : 8 < width → ∀ finding ∈ group.2, (Content.markup finding.message).IsReadable

theorem isListable_iff {group : String × List Finding} : IsListable label width group ↔
    ∃ shown, label (Path.ofString group.1) = .ok shown ∧
      (∃ lines, (Report.heading shown).render width = .ok lines) ∧
      ∃ lines, (Block.table (findingTable group.2)).render width = .ok lines := by
  simp only [exists_render_heading_iff, exists_render_findingTable_iff]
  constructor
  · rintro ⟨⟨shown, hlabel, hheading⟩, hmessages⟩
    exact ⟨shown, hlabel, hheading, hmessages⟩
  · rintro ⟨shown, hlabel, hheading, hmessages⟩
    exact ⟨⟨shown, hlabel, hheading⟩, hmessages⟩

/-- What the cells of the row about a finding show. -/
def shownCells (finding : Finding) : List (Except Markup.Fault (List Char)) := [
  .ok (toString finding.location.line.val).toList,
  .ok (toString finding.location.column.val).toList,
  .ok (Markup.sanitize (Text.upper finding.severity).toList),
  .ok (Markup.sanitize s!"[{finding.ruleId}]".toList),
  Markup.render finding.message]

theorem rows_findingTable (findings : List Finding) :
    (findingTable findings).rows.map (·.map Content.render) = findings.map shownCells := by
  rw [findingTable, List.map_map]
  refine List.map_congr_left fun finding _ => ?_
  show [Markup.render _, Markup.render _, .ok (String.ofList _).toList,
    .ok (String.ofList _).toList, Markup.render _] = _
  rw [(shows_digits _).render_eq, (shows_digits _).render_eq, String.toList_ofList,
    String.toList_ofList]
  rfl

theorem exists_render_belowTable (width : Nat) (verbose : Bool) (findings : List Finding) :
    ∀ block ∈ belowTable verbose findings, ∃ lines, block.render width = .ok lines := by
  intro block hblock
  rcases of_mem_belowTable hblock with rfl | ⟨finding, hquote⟩ | ⟨ruleId, hadvice⟩
  · exact ⟨_, rfl⟩
  · exact (isReadable_quoteBlock hquote).exists_render width
  · exact (isReadable_adviceBlock hadvice).exists_render width

/-- Labelled groups are followed as long as a condition holds. -/
theorem exists_takeWhile_labelled (label : Path → Except ε String)
    (q : String × List Finding → Bool) (groups : List (String × List Finding)) :
    ∃ listed rest, groups = listed ++ rest ∧
      (∀ group ∈ listed,
        ∃ shown, label (Path.ofString group.1) = .ok shown ∧ q (shown, group.2) = true) ∧
      (∀ group ∈ rest.head?,
        ¬ ∃ shown, label (Path.ofString group.1) = .ok shown ∧ q (shown, group.2) = true) ∧
      List.Forall₂ (IsLabelled label) ((labelled label groups).takeWhile q) listed := by
  induction groups with
  | nil => exact ⟨[], [], rfl, by simp, by simp, .nil⟩
  | cons group more ih =>
    obtain ⟨path, found⟩ := group
    unfold labelled
    cases hlabel : label (Path.ofString path) with
    | error fault => exact ⟨[], (path, found) :: more, rfl, by simp, by simp [hlabel], .nil⟩
    | ok shown =>
      dsimp only
      rw [List.takeWhile_cons]
      cases hq : q (shown, found) with
      | false => exact ⟨[], (path, found) :: more, rfl, by simp, by simp [hlabel, hq], .nil⟩
      | true =>
        obtain ⟨listed, rest, rfl, hlisted, hrest, hlabelled⟩ := ih
        exact ⟨(path, found) :: listed, rest, rfl,
          List.forall_mem_cons.2 ⟨⟨shown, hlabel, hq⟩, hlisted⟩, hrest,
          .cons ⟨hlabel, rfl⟩ hlabelled⟩

/-- The groups that are listed are the first ones, up to one that cannot be. -/
theorem exists_listed (label : Path → Except ε String) (findings : List Finding)
    (analysed : List Path) (verbose : Bool) (width : Nat) :
    ∃ listed rest, groups findings = listed ++ rest ∧
      (∀ group ∈ listed, IsListable label width group) ∧
      (∀ group ∈ rest.head?, ¬ IsListable label width group) ∧
      List.Forall₂
        (fun shown group => ∃ text, label (Path.ofString group.1) = .ok text ∧
          shown = (heading text, findingTable group.2))
        (tables (printed width (document label findings analysed verbose).1)) listed := by
  obtain ⟨rest', hblocks, hrest'⟩ := exists_fst_document_eq label findings analysed verbose
  have hlistable (group : String × List Finding) : IsListable label width group ↔
      ∃ shown, label (Path.ofString group.1) = .ok shown ∧
        (((Report.heading shown).render width).isOk &&
          ((Block.table (findingTable group.2)).render width).isOk) = true := by
    simp only [isListable_iff, Bool.and_eq_true, isOk_render_iff]
  obtain ⟨listed, rest, hgroups, hlisted, hrest, hlabelled⟩ :=
    exists_takeWhile_labelled label (fun group => ((Report.heading group.1).render width).isOk &&
      ((Block.table (findingTable group.2)).render width).isOk) (groups findings)
  refine ⟨listed, rest, hgroups, fun group hgroup => (hlistable group).2 (hlisted group hgroup),
    fun group hgroup h => hrest group hgroup ((hlistable group).1 h), ?_⟩
  have hbelow (verbose : Bool) (findings : List Finding) (block : Block)
      (h : block ∈ belowTable verbose findings) : (block.render width).isOk = true :=
    isOk_render_iff.2 (exists_render_belowTable width verbose findings block h)
  rw [hblocks, printed, tables_takeWhile rfl hbelow verbose _ hrest', List.forall₂_map_left_iff]
  refine hlabelled.imp fun shown group h => ⟨shown.1, h.1, ?_⟩
  rw [h.2]

/-! ## The table of all files -/

/-- A file can be put into the table of all files: it has a label, and what is read of it can be
read.  It is read if the console is wider than ten cells. -/
def IsTabulable (label : Path → Except ε String) (width : Nat) (path : Path) : Prop :=
  ∃ shown, label path = .ok shown ∧ (10 < width → (Content.markup shown).IsReadable)

/-- What the cells of the row about a file show. -/
def shownFileCells (label : String) (row : FileRow) : List (Except Markup.Fault (List Char)) := [
  Markup.render label,
  .ok (match row.status with | .flagged => "FLAGGED" | .clean => "OK").toList,
  .ok (toString row.count).toList]

theorem rows_fileTable (rows : List (String × FileRow)) :
    (fileTable rows).rows.map (·.map Content.render) =
      rows.map fun row => shownFileCells row.1 row.2 := by
  rw [fileTable, List.map_map]
  refine List.map_congr_left fun row _ => ?_
  obtain ⟨label, path, status, count⟩ := row
  show [Markup.render label, status.content.render, Markup.render (toString count)] = _
  rw [(shows_digits count).render_eq]
  cases status <;> rfl

/-- The table of all files in its panel. -/
def filePanel (rows : List (String × FileRow)) : Block :=
  .panel
    { inside := .table (fileTable rows)
      borderStyle := "cyan"
      frame := .rounded }

theorem fileSummary_eq (rows : List (String × FileRow)) :
    fileSummary rows = [.blank, filePanel rows] := rfl

/-- If not all of it is printed, the panel is missing. -/
theorem framed_printed_fileSummary {rows : List (String × FileRow)}
    (h : printed width (fileSummary rows) ≠ fileSummary rows) :
    framed (printed width (fileSummary rows)) = [] := by
  rw [fileSummary_eq] at h ⊢
  cases hpanel : (filePanel rows).render width with
  | ok lines =>
    have hblocks : ∀ block ∈ [.blank, filePanel rows], ∃ lines, block.render width = .ok lines :=
      List.forall_mem_cons.2 ⟨⟨_, rfl⟩, List.forall_mem_singleton.2 ⟨lines, hpanel⟩⟩
    exact absurd (printed_eq_self_iff.2 hblocks) h
  | error fault =>
    rw [printed, List.takeWhile_cons, List.takeWhile_cons, hpanel]
    rfl

/-- All findings can be listed, and then all files put into a table. -/
structure IsComplete (label : Path → Except ε String) (width : Nat) (findings : List Finding)
    (analysed : List Path) : Prop where
  headings : ∀ finding ∈ findings, ∃ shown, label (Path.ofString finding.pathText) = .ok shown ∧
    (4 < width → (Content.markup s!"[bold cyan]{shown}[/bold cyan]").IsReadable)
  messages : 8 < width → ∀ finding ∈ findings, (Content.markup finding.message).IsReadable
  files : ∀ path ∈ analysed, IsTabulable label width path

theorem isComplete_iff : IsComplete label width findings analysed ↔
    (∀ group ∈ groups findings, IsListable label width group) ∧
      ∀ path ∈ analysed, IsTabulable label width path := by
  have hheadings := @forall_groups_iff findings fun path => ∃ shown, label path = .ok shown ∧
    (4 < width → (Content.markup s!"[bold cyan]{shown}[/bold cyan]").IsReadable)
  have hmessages : (∀ group ∈ groups findings, ∀ finding ∈ group.2,
        (Content.markup finding.message).IsReadable) ↔
      ∀ finding ∈ findings, (Content.markup finding.message).IsReadable := by
    rw [← List.forall_mem_flatMap, flatMap_groups]
    simp only [(Finding.isStableSort_sort findings).perm.mem_iff]
  constructor
  · intro h
    exact ⟨fun group hgroup => ⟨hheadings.2 h.headings group hgroup,
      fun hwidth => hmessages.2 (h.messages hwidth) group hgroup⟩, h.files⟩
  · rintro ⟨hgroups, hfiles⟩
    exact ⟨hheadings.1 fun group hgroup => (hgroups group hgroup).heading,
      fun hwidth => hmessages.1 fun group hgroup => (hgroups group hgroup).messages hwidth, hfiles⟩

theorem IsComplete.snd_document (h : IsComplete label width findings analysed) (verbose : Bool) :
    (document label findings analysed verbose).2 = none := by
  refine snd_document_eq_none_iff.2 ⟨fun finding hfinding => ?_, fun path hpath => ?_⟩
  · obtain ⟨shown, hlabel, -⟩ := h.headings finding hfinding
    exact ⟨shown, hlabel⟩
  · obtain ⟨shown, hlabel, -⟩ := h.files path hpath
    exact ⟨shown, hlabel⟩

/-- The part about single files is shown as a whole if all findings can be listed. -/
theorem forall_sections_iff
    (hlabels : ∀ group ∈ groups findings, HasLabel label (Path.ofString group.1)) :
    (∀ block ∈ (sections label verbose (groups findings)).1,
        ∃ lines, block.render width = .ok lines) ↔
      ∀ group ∈ groups findings, IsListable label width group := by
  rw [fst_sections, snd_sections_eq_none_iff.2 hlabels, Option.map_none, Option.toList_none,
    List.append_nil, List.forall_mem_flatMap, forall_mem_labelled_iff hlabels]
  refine forall₂_congr fun group _ => ?_
  rw [isListable_iff]
  refine exists_congr fun shown => and_congr_right fun _ => ?_
  simp only [fileBlocks_eq, List.forall_mem_cons]
  constructor
  · rintro ⟨-, hheading, htable, -⟩
    exact ⟨hheading, htable⟩
  · rintro ⟨hheading, htable⟩
    exact ⟨⟨_, rfl⟩, hheading, htable, exists_render_belowTable width verbose group.2⟩

theorem forall_fileSummary_iff {rows : List (String × FileRow)}
    (hsnd : rows.map Prod.snd = fileRows findings analysed)
    (hlabels : ∀ row ∈ rows, label row.2.path = .ok row.1) :
    (∀ block ∈ fileSummary rows, ∃ lines, block.render width = .ok lines) ↔
      ∀ path ∈ analysed, IsTabulable label width path := by
  have hpanel : (∃ lines, (filePanel rows).render width = .ok lines) ↔
      ∀ row ∈ rows, 10 < width → (Content.markup row.1).IsReadable := by
    refine Block.exists_render_panel_iff.trans ?_
    simp only [Inside.render, exists_render_fileTable_iff]
    constructor
    · exact fun h row hrow hwidth => h (by omega) (by omega) row hrow
    · exact fun h _ hwidth row hrow => h row hrow (by omega)
  rw [← @forall_fileRows_iff findings, ← hsnd, List.forall_mem_map]
  simp only [fileSummary_eq, List.forall_mem_cons, hpanel, List.not_mem_nil, false_imp_iff,
    implies_true, and_true]
  refine (and_iff_right ⟨_, rfl⟩).trans (forall₂_congr fun row hrow => ?_)
  simp only [IsTabulable, hlabels row hrow, Except.ok.injEq, exists_eq_left']

/-- The table of all files and the summary are printed together or not at all. -/
theorem framed_printed (hanalysed : analysed ≠ []) :
    (IsComplete label width findings analysed →
      ∃ rows : List (String × FileRow), rows.map Prod.snd = fileRows findings analysed ∧
        (∀ row ∈ rows, label row.2.path = .ok row.1) ∧
        framed (printed width (document label findings analysed verbose).1) =
          [(none, .table (fileTable rows)),
            (some "Summary", .content (.markup (summaryText findings)))]) ∧
    (¬ IsComplete label width findings analysed →
      framed (printed width (document label findings analysed verbose).1) = []) := by
  have hlabelled (hwhole : (document label findings analysed verbose).2 = none) :
      ∀ group ∈ groups findings, HasLabel label (Path.ofString group.1) :=
    forall_groups_iff.2 (snd_document_eq_none_iff.1 hwhole).1
  constructor
  · intro hcomplete
    have hwhole := hcomplete.snd_document verbose
    obtain ⟨rows, hsnd, hlabels, hblocks⟩ := exists_fst_document_of_whole hanalysed hwhole
    refine ⟨rows, hsnd, hlabels, ?_⟩
    have hall : ∀ block ∈ (document label findings analysed verbose).1,
        ∃ lines, block.render width = .ok lines := by
      rw [hblocks, List.forall_mem_append, List.forall_mem_append]
      exact ⟨(forall_sections_iff (hlabelled hwhole)).2 (isComplete_iff.1 hcomplete).1,
        (forall_fileSummary_iff hsnd hlabels).2 hcomplete.files,
        fun block hblock => (isReadable_summary hblock).exists_render width⟩
    rw [printed_eq_self_iff.2 hall, hblocks, framed_append, framed_sections]
    rfl
  · intro hcomplete
    by_cases hwhole : (document label findings analysed verbose).2 = none
    · obtain ⟨rows, hsnd, hlabels, hblocks⟩ := exists_fst_document_of_whole hanalysed hwhole
      rw [hblocks, printed_append]
      split
      · rename_i hsections
        have hgroups := (forall_sections_iff (hlabelled hwhole)).1 (printed_eq_self_iff.1 hsections)
        rw [framed_append, framed_sections, List.nil_append, printed_append]
        split
        · rename_i hpanel
          have hfiles := (forall_fileSummary_iff hsnd hlabels).1 (printed_eq_self_iff.1 hpanel)
          exact absurd (isComplete_iff.2 ⟨hgroups, hfiles⟩) hcomplete
        · exact framed_printed_fileSummary ‹_›
      · exact framed_eq_nil_of_prefix (isPrefix_printed _ _) (framed_sections _ _ _)
    · exact framed_eq_nil_of_prefix (isPrefix_printed _ _) (framed_document_of_ne_none hwhole)

end

end Report

end MemoAudit
