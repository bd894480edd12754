import Mathlib
import MemoAudit.Proofs.Markup
import MemoAudit.Proofs.Totals
import MemoAudit.Report.Render

/-!
# Texts that can be read

Some of the texts of a report are read as markup, and markup can be at fault.  Quotes, advice and
the summary never are: what they hold of the findings is escaped, and the tags around it come in
pairs (`Report.isReadable_quoteBlock`, `Report.isReadable_adviceBlock`, `Report.render_text`).  A
block whose texts can all be read is shown at every width (`Report.Block.IsReadable.exists_render`).

The converse depends on the width, since a text for which there is no cell is not read.  A heading
reads its label as soon as the console is wider than four cells
(`Report.exists_render_heading_iff`), and a table reads the column without a fixed width if more
than two cells are left for it beside its frame (`Report.exists_render_findingTable_iff`,
`Report.exists_render_fileTable_iff`).
-/

namespace MemoAudit

namespace Report

/-! ## Blocks that can be shown -/

/-- The content can be shown. -/
def Content.IsReadable (content : Content) : Prop := ∃ shown, content.render = .ok shown

/-- Without a cell for it, a content is not read. -/
theorem Content.exists_lines_iff {content : Content} {width : Nat} {overflow : Layout.Overflow}
    {alignment : Layout.LineAlignment} :
    (∃ lines, content.lines width overflow alignment = .ok lines) ↔
      (0 < width → content.IsReadable) := by
  unfold Content.lines
  split
  · rename_i hwidth
    simp [hwidth]
  · refine (exists_bind_eq_ok_iff fun _ => ⟨_, rfl⟩).trans ?_
    exact ⟨fun h _ => h, fun h => h (Nat.pos_of_ne_zero ‹_›)⟩

/-- The two cells around a content are not for it. -/
theorem Content.exists_wish_iff {content : Content} {available : Nat} :
    (∃ wish, content.wish available = .ok wish) ↔ (2 < available → content.IsReadable) := by
  unfold Content.wish
  split
  · rename_i havailable
    simp [Nat.not_lt.2 havailable]
  · refine (exists_bind_eq_ok_iff fun _ => ⟨_, rfl⟩).trans ?_
    exact ⟨fun h _ => h, fun h => h (Nat.lt_of_not_le ‹_›)⟩

theorem exists_widestWish_iff {contents : List Content} {available : Nat} :
    (∃ wish, widestWish available contents = .ok wish) ↔
      (2 < available → ∀ content ∈ contents, content.IsReadable) := by
  induction contents with
  | nil => simp [widestWish]
  | cons content rest ih =>
    rw [List.forall_mem_cons, imp_and, ← Content.exists_wish_iff, ← ih]
    constructor
    · rintro ⟨wish, h⟩
      obtain ⟨first, hfirst, h⟩ := exists_of_bind_eq_ok h
      obtain ⟨second, hsecond, -⟩ := exists_of_bind_eq_ok h
      exact ⟨⟨first, hfirst⟩, second, hsecond⟩
    · rintro ⟨hfirst, hsecond⟩
      exact exists_bind_eq_ok hfirst fun _ => exists_bind_eq_ok hsecond fun _ => ⟨_, rfl⟩

/-- A column does not wish for more than there is. -/
theorem widestWish_le {contents : List Content} {available wish : Nat}
    (h : widestWish available contents = .ok wish) : wish ≤ available := by
  induction contents generalizing wish with
  | nil =>
    obtain rfl : 0 = wish := Except.ok.inj h
    exact Nat.zero_le _
  | cons content rest ih =>
    obtain ⟨first, hfirst, h⟩ := exists_of_bind_eq_ok h
    obtain ⟨second, hsecond, h⟩ := exists_of_bind_eq_ok h
    obtain rfl : max first second = wish := Except.ok.inj h
    refine max_le ?_ (ih hsecond)
    unfold Content.wish at hfirst
    split at hfirst
    · exact (Except.ok.inj hfirst).ge
    · obtain ⟨shown, -, hfirst⟩ := exists_of_bind_eq_ok hfirst
      rw [← Except.ok.inj hfirst]
      exact min_le_left _ _

theorem isReadable_iff {text : String} : (Content.markup text).IsReadable ↔
    ∃ openTags, Markup.applyTags 0 [] (Markup.scan text.toList) = .ok openTags := by
  simp [Content.IsReadable, Content.render, Markup.render_eq_ok_iff]

theorem isReadable_empty : (Content.markup "").IsReadable :=
  ⟨_, (Markup.shows_of_forall (by simp) (by simp) (by simp)).render_eq⟩

/-! ## Tables -/

/-- The headers and the cells of the table can be shown. -/
structure Table.IsReadable (table : Table) : Prop where
  headers : ∀ column ∈ table.columns, (Content.markup column.header).IsReadable
  cells : ∀ row ∈ table.rows, ∀ content ∈ row, content.IsReadable

theorem shareExcess_le {bound : Nat} {widths : List Nat} (h : ∀ width ∈ widths, width ≤ bound)
    (excess sharers : Nat) : ∀ width ∈ shareExcess excess sharers widths, width ≤ bound := by
  induction widths generalizing excess sharers with
  | nil => simp [shareExcess]
  | cons first rest ih =>
    obtain ⟨hfirst, hrest⟩ := List.forall_mem_cons.1 h
    unfold shareExcess
    split
    · exact List.forall_mem_cons.2 ⟨hfirst, ih hrest _ _⟩
    · exact List.forall_mem_cons.2 ⟨(Nat.sub_le _ _).trans hfirst, ih hrest _ _⟩

theorem narrowed_le {bound : Nat} {widths : List Nat} (h : ∀ width ∈ widths, width ≤ bound)
    (columns : List Column) (available : Nat) :
    ∀ width ∈ narrowed columns widths available, width ≤ bound := by
  have hflexed : ∀ pair ∈ columns.zip widths,
      (if pair.1.width.isSome then pair.2 else pair.2 - (total widths - available)) ≤ bound := by
    intro pair hpair
    have hgiven := h pair.2 (List.of_mem_zip hpair).2
    split
    · exact hgiven
    · exact (Nat.sub_le _ _).trans hgiven
  unfold narrowed
  dsimp only
  split
  · exact shareExcess_le (List.forall_mem_map.2 hflexed) _ _
  · exact List.forall_mem_map.2 hflexed

namespace Table

variable {table : Table} {available : Nat}

/-- Only a column without a width of its own is read. -/
theorem exists_columnWidth (position : Nat) {column : Column} (hcolumn : column ∈ table.columns)
    (h : 2 < available → table.IsReadable) :
    ∃ width, table.columnWidth position column available = .ok width := by
  unfold columnWidth
  split
  · exact ⟨_, rfl⟩
  · split
    · exact ⟨_, rfl⟩
    · refine exists_widestWish_iff.2 fun havailable => ?_
      refine List.forall_mem_cons.2 ⟨(h havailable).headers column hcolumn, fun content hmem => ?_⟩
      obtain ⟨row, hrow, rfl⟩ := List.mem_map.1 hmem
      rw [List.getD_eq_getElem?_getD]
      cases hcell : row[position]? with
      | none => exact isReadable_empty
      | some content => exact (h havailable).cells row hrow content (List.mem_of_getElem? hcell)

theorem columnWidth_le {position width : Nat} {column : Column}
    (h : table.columnWidth position column available = .ok width) : width ≤ available := by
  unfold columnWidth at h
  split at h
  · exact (Except.ok.inj h) ▸ Nat.zero_le _
  · split at h
    · exact (Except.ok.inj h) ▸ min_le_left _ _
    · exact widestWish_le h

/-- Columns that share no more than two cells get two cells at most. -/
theorem exists_columnWidths (h : 2 < available → table.IsReadable) :
    ∃ widths, table.columnWidths available = .ok widths ∧
      (available ≤ 2 → ∀ width ∈ widths, width ≤ 2) := by
  obtain ⟨wished, hwished⟩ := exists_mapM_eq_ok_iff.2
    fun (pair : Nat × Column)
        (hpair : pair ∈ (List.range table.columns.length).zip table.columns) =>
      exists_columnWidth pair.1 (List.of_mem_zip hpair).2 h
  have hwidths : available ≤ 2 → ∀ width ∈ wished.map (max 1), width ≤ 2 := by
    intro havailable width hwidth
    obtain ⟨wish, hwish, rfl⟩ := List.mem_map.1 hwidth
    obtain ⟨pair, -, hpair⟩ := exists_of_mem_mapM hwished hwish
    exact max_le (by decide) ((columnWidth_le hpair).trans havailable)
  unfold columnWidths
  simp only [hwished, bind, Except.bind]
  split
  · exact ⟨_, rfl, hwidths⟩
  · have hnarrowed (havailable : available ≤ 2) :=
      narrowed_le (hwidths havailable) table.columns available
    obtain ⟨widths, hfinal⟩ := exists_mapM_eq_ok_iff.2
      fun (entry : (Nat × Column) × Nat) (hentry : entry ∈
        ((List.range table.columns.length).zip table.columns).zip
          (narrowed table.columns (wished.map (max 1)) available)) =>
        exists_columnWidth entry.1.1 (List.of_mem_zip (List.of_mem_zip hentry).1).2
          fun hwidth => h <| lt_of_not_ge fun havailable =>
            absurd (hnarrowed havailable _ (List.of_mem_zip hentry).2) (not_le.2 hwidth)
    refine ⟨widths, hfinal, fun havailable width hwidth => ?_⟩
    obtain ⟨entry, hentry, hcolumn⟩ := exists_of_mem_mapM hfinal hwidth
    exact (columnWidth_le hcolumn).trans (hnarrowed havailable _ (List.of_mem_zip hentry).2)

theorem exists_rowLines {row : List Content} {widths : List Nat}
    (h : ∀ content ∈ row, ∀ width ∈ widths, 2 < width → content.IsReadable)
    (strokes : Strokes) (rise : Rise) (columns : List Column) :
    ∃ lines, rowLines strokes rise columns widths row = .ok lines := by
  refine exists_bind_eq_ok (exists_mapM_eq_ok_iff.2 ?_) fun _ => ⟨_, rfl⟩
  rintro ⟨⟨column, width⟩, content⟩ hmem
  obtain ⟨hcolumns, hcontent⟩ := List.of_mem_zip hmem
  have hlines := @Content.exists_lines_iff content (width - 2) .ellipsis column.justify.alignment
  refine exists_bind_eq_ok (exists_bind_eq_ok (hlines.2 fun hwidth => ?_) fun _ => ⟨_, rfl⟩)
    fun _ => ⟨_, rfl⟩
  exact h content hcontent width (List.of_mem_zip hcolumns).2 (by omega)

/-- A table can be shown if it can be read, or if there is no room to read it.  The edges and the
dividers take a cell each. -/
theorem exists_render (htitle : ∀ title ∈ table.title, (Content.markup title).IsReadable)
    (h : table.columns.length + 3 < available → table.IsReadable) :
    ∃ lines, table.render available = .ok lines := by
  have hroom (hroom : 2 < available - (table.columns.length + 1)) : table.IsReadable :=
    h (by omega)
  obtain ⟨widths, hwidths, hnarrow⟩ := exists_columnWidths hroom
  have hcells {content : Content} (hcontent : table.IsReadable → content.IsReadable) :
      ∀ width ∈ widths, 2 < width → content.IsReadable := by
    intro width hmem hwidth
    refine hcontent (hroom (lt_of_not_ge fun hle => ?_))
    exact absurd (hnarrow hle width hmem) (not_le.2 hwidth)
  have hheader (strokes : Strokes) : ∃ lines, rowLines strokes .bottom table.columns widths
      (table.columns.map fun column => .markup column.header) = .ok lines := by
    refine exists_rowLines (fun content hcontent => hcells fun hreadable => ?_) _ _ _
    obtain ⟨column, hcolumn, rfl⟩ := List.mem_map.1 hcontent
    exact hreadable.headers column hcolumn
  have hrows (strokes : Strokes) :
      ∃ rows, table.rows.mapM (rowLines strokes .top table.columns widths) = .ok rows :=
    exists_mapM_eq_ok_iff.2 fun row hrow =>
      exists_rowLines (fun content hcontent =>
        hcells fun hreadable => hreadable.cells row hrow content hcontent) _ _ _
  unfold render
  split
  · exact ⟨_, rfl⟩
  · refine exists_bind_of_eq_ok hwidths ?_
    cases hcaption : table.title <;>
      refine exists_bind_eq_ok ?_ fun _ =>
        exists_bind_eq_ok (hheader _) fun _ => exists_bind_eq_ok (hrows _) fun _ => ⟨_, rfl⟩
    · exact ⟨_, rfl⟩
    · exact Content.exists_lines_iff.2 fun _ => htitle _ hcaption

/-- In a table that is shown, the columns without a width of their own have been read if there was
room. -/
theorem isReadable_of_render {lines : List Line} (hrender : table.render available = .ok lines)
    {position : Nat} {column : Column}
    (hcolumn : (position, column) ∈ (List.range table.columns.length).zip table.columns)
    (hwidth : column.width = none) (hroom : table.columns.length + 3 < available) :
    ∀ content ∈ table.columnContents position column, content.IsReadable := by
  unfold render at hrender
  split at hrender
  · omega
  · obtain ⟨widths, hwidths, -⟩ := exists_of_bind_eq_ok hrender
    obtain ⟨wished, hwished, -⟩ := exists_of_bind_eq_ok hwidths
    obtain ⟨wish, hwish⟩ := exists_mapM_eq_ok_iff.1 ⟨wished, hwished⟩ _ hcolumn
    have hsome : ¬ available - (table.columns.length + 1) = 0 := by omega
    simp only [columnWidth, if_neg hsome, hwidth] at hwish
    exact exists_widestWish_iff.1 ⟨wish, hwish⟩ (by omega)

end Table

/-! ## Blocks -/

def Inside.IsReadable : Inside → Prop
  | .content shown => shown.IsReadable
  | .table shown => (∀ title ∈ shown.title, (Content.markup title).IsReadable) ∧ shown.IsReadable

/-- All that the block shows can be shown. -/
def Block.IsReadable : Block → Prop
  | .blank => True
  | .markup text => (Content.markup text).IsReadable
  | .table shown => (Inside.table shown).IsReadable
  | .panel shown => shown.inside.IsReadable

theorem Inside.IsReadable.exists_render {inside : Inside} (h : inside.IsReadable) (width : Nat) :
    ∃ lines, inside.render width = .ok lines := by
  cases inside with
  | content shown => exact Content.exists_lines_iff.2 fun _ => h
  | table shown => exact Table.exists_render h.1 fun _ => h.2

theorem Block.exists_render_table_iff {shown : Table} {width : Nat} :
    (∃ lines, (Block.table shown).render width = .ok lines) ↔
      ∃ lines, shown.render width = .ok lines :=
  exists_bind_eq_ok_iff fun _ => ⟨_, rfl⟩

/-- The edges of a panel and the spaces at them take four cells. -/
theorem Block.exists_render_panel_iff {shown : Panel} {width : Nat} :
    (∃ lines, (Block.panel shown).render width = .ok lines) ↔
      (0 < width → ∃ lines, shown.inside.render (width - 4) = .ok lines) := by
  refine (exists_bind_eq_ok_iff fun _ => ⟨_, rfl⟩).trans ?_
  show (∃ lines, shown.render width = .ok lines) ↔ _
  unfold Panel.render
  split
  · rename_i hwidth
    simp [hwidth]
  · refine (exists_bind_eq_ok_iff fun _ => ⟨_, rfl⟩).trans ?_
    exact ⟨fun h _ => h, fun h => h (Nat.pos_of_ne_zero ‹_›)⟩

theorem Block.IsReadable.exists_render {block : Block} (h : block.IsReadable) (width : Nat) :
    ∃ lines, block.render width = .ok lines := by
  cases block with
  | blank => exact ⟨_, rfl⟩
  | markup text => exact exists_bind_eq_ok h fun _ => ⟨_, rfl⟩
  | table shown =>
    exact exists_render_table_iff.2 (@Inside.IsReadable.exists_render (.table shown) h width)
  | panel shown => exact exists_render_panel_iff.2 fun _ => Inside.IsReadable.exists_render h _

/-- Blocks that can be shown are shown without a fault, however wide the console is. -/
theorem render_snd_eq_none {blocks : List Block} (h : ∀ block ∈ blocks, block.IsReadable)
    (width : Nat) : (render width blocks).2 = none := by
  induction blocks with
  | nil => rfl
  | cons block rest ih =>
    obtain ⟨hblock, hrest⟩ := List.forall_mem_cons.1 h
    obtain ⟨lines, hlines⟩ := hblock.exists_render width
    simp only [render, hlines]
    exact ih hrest

/-! ## Texts of the report -/

open Markup (Names Shows IsInert isSquare isMovement Piece)

theorem shows_digits (n : Nat) : Shows (toString n).toList (toString n).toList := by
  have hdigit {c : Char} (hc : c ∈ (toString n).toList) : c.isDigit = true := by
    rw [Nat.toString_eq_repr, Nat.toList_repr] at hc
    exact Nat.isDigit_of_mem_toDigits (by decide) (by decide) hc
  have hplain {c d : Char} (hc : c ∈ (toString n).toList) (hd : d.isDigit = false) : c ≠ d := by
    rintro rfl
    rw [hdigit hc] at hd
    cases hd
  refine Markup.shows_of_forall (fun c hc => ?_)
    (fun hlast => hplain (List.mem_of_getLast? hlast) (by decide) rfl) fun c hc => ?_
  · simp [isSquare, hplain hc (by decide : '['.isDigit = false),
      hplain hc (by decide : ']'.isDigit = false)]
  · simp [isMovement, hplain hc (by decide : '\x07'.isDigit = false),
      hplain hc (by decide : '\x08'.isDigit = false),
      hplain hc (by decide : '\x0b'.isDigit = false),
      hplain hc (by decide : '\x0c'.isDigit = false),
      hplain hc (by decide : '\r'.isDigit = false)]

theorem names_style (severity : Severity) :
    Names severity.style.toList severity.style := by
  cases severity <;> decide +kernel

theorem names_boldCyan : Names "bold cyan".toList "bold cyan" := names_style .convention

/-- The other styles that a report uses by itself. -/
theorem names_of_mem {style : String} (h : style ∈ ["bold", "dim", "green"]) :
    Names style.toList style := by
  have hall : ∀ style ∈ ["bold", "dim", "green"], Names style.toList style := by decide
  exact hall style h

section

variable {body out : List Char}

/-- Text between a tag and one of the same name. -/
theorem shows_tagged {name : List Char} {canonical : String} (hname : Names name canonical)
    (hbody : Shows body out) :
    Shows ((Piece.bracket 0 name).text ++ (body ++ (Piece.bracket 0 ('/' :: name)).text)) out :=
  Markup.shows_enclosed hname hname.closing hname.applyTag_closing hbody

/-- Text between a tag and one that closes whatever is open. -/
theorem shows_tagged_any {name : List Char} {canonical : String} (hname : Names name canonical)
    (hbody : Shows body out) :
    Shows ((Piece.bracket 0 name).text ++ (body ++ (Piece.bracket 0 ['/']).text)) out :=
  Markup.shows_enclosed hname (by decide)
    (fun position openTags => Markup.applyTag_close position openTags _) hbody

/-- A constant text without square brackets. -/
theorem shows_constant {cs : List Char} (h : cs.all (fun c => !isSquare c && !isMovement c) = true)
    (hlast : cs.getLast? ≠ some '\\') : Shows cs cs := by
  simp only [List.all_eq_true, Bool.and_eq_true, Bool.not_eq_true'] at h
  exact Markup.shows_of_forall (fun c hc => (h c hc).1) hlast fun c hc => (h c hc).2

theorem isReadable_nothingFound : nothingFound.IsReadable := by
  have hbody : Shows "No offenses found.".toList _ := shows_constant rfl (by decide)
  have hgreen : Names "green".toList "green" := names_of_mem (by simp)
  have htext : Shows "[green]No offenses found.[/green]".toList _ := shows_tagged hgreen hbody
  exact ⟨_, htext.render_eq⟩

theorem shows_intercalate {separator : List Char} (hseparator : Shows separator separator)
    {parts outs : List (List Char)} (hparts : List.Forall₂ Shows parts outs) :
    Shows (separator.intercalate parts) (separator.intercalate outs) := by
  induction hparts with
  | nil => exact Markup.shows_of_forall (by simp) (by simp) (by simp)
  | @cons part out parts outs hpart hrest ih =>
    cases hrest with
    | nil => simpa using hpart
    | cons hnext hmore =>
      rw [List.intercalate_cons_cons, List.intercalate_cons_cons]
      exact (hpart.append hseparator).append ih

/-- Words in dim letters at the start of a line. -/
theorem shows_dim (hbody : Shows body out) :
    Shows ("  [dim]".toList ++ (body ++ "[/dim] ".toList)) ([' ', ' '] ++ out ++ [' ']) := by
  have hindent : Shows [' ', ' '] [' ', ' '] := shows_constant rfl (by decide)
  have hspace : Shows [' '] [' '] := shows_constant rfl (by decide)
  have hdim : Names "dim".toList "dim" := names_of_mem (by simp)
  convert (hindent.append (shows_tagged hdim hbody)).append hspace using 1
  simp [Piece.text]

end

/-! ## The summary -/

theorem shows_total (total : Nat) {offenses : String}
    (hword : Shows offenses.toList offenses.toList) :
    Shows s!"[bold]{total} {offenses}[/bold]".toList s!"{total} {offenses}".toList := by
  have hspace : Shows [' '] [' '] := shows_constant rfl (by decide)
  have hbold : Names "bold".toList "bold" := names_of_mem (by simp)
  have hbody := shows_tagged hbold ((shows_digits total).append (hspace.append hword))
  convert hbody using 1
  · show ("[bold]" ++ toString total ++ " " ++ offenses ++ "[/bold]").toList = _
    simp [Piece.text]
  · show (toString total ++ " " ++ offenses).toList = _
    simp

theorem shows_severityPart (severity : Severity) (count : Nat) :
    Shows s!"[{severity.style}]{count} {severity.name}[/]".toList
      s!"{count} {severity.name}".toList := by
  have hspace : Shows [' '] [' '] := shows_constant rfl (by decide)
  have hword : Shows severity.name.toList severity.name.toList := by
    cases severity <;> exact shows_constant (by decide) (by decide)
  have hbody := shows_tagged_any (names_style severity)
    ((shows_digits count).append (hspace.append hword))
  convert hbody using 1
  · show ("[" ++ severity.style ++ "]" ++ toString count ++ " " ++ severity.name ++
      "[/]").toList = _
    simp [Piece.text]
  · show (toString count ++ " " ++ severity.name).toList = _
    simp

/-- The summary is shown without its tags. -/
theorem render_text (totals : Totals) : Markup.render totals.text = .ok totals.shown.toList := by
  refine Markup.Shows.render_eq ?_
  rw [Totals.text, Totals.shown, String.toList_intercalate, String.toList_intercalate]
  refine shows_intercalate (shows_constant rfl (by decide)) (.cons (shows_total _ ?_) ?_)
  · split <;> exact shows_constant rfl (by decide)
  · rw [List.map_map, List.map_map, List.forall₂_map_left_iff, List.forall₂_map_right_iff,
      List.forall₂_same]
    exact fun part _ => shows_severityPart part.1 part.2

theorem isReadable_summary {findings : List Finding} {block : Block}
    (hblock : block ∈ summary findings) : block.IsReadable := by
  rcases List.mem_pair.1 hblock with rfl | rfl
  · trivial
  · show (Content.markup (summaryText findings)).IsReadable
    rw [summaryText_eq]
    exact ⟨_, render_text _⟩

/-! ## Quotes and advice -/

/-- What is escaped can be shown behind any text that can stand in front of another one. -/
theorem isReadable_append_escape {front text : String}
    (hfront : Markup.IsBalanced front.toList) :
    (Content.markup (front ++ Markup.escape text)).IsReadable := by
  refine isReadable_iff.2 ⟨[], ?_⟩
  rw [String.toList_append, hfront.applyTags_append, Markup.applyTags_escape]

theorem isReadable_quoteBlock {finding : Finding} {block : Block}
    (h : quoteBlock? finding = some block) : block.IsReadable := by
  obtain ⟨snippet, -, rfl⟩ := Option.map_eq_some_iff.1 h
  have hmark : Shows "|--".toList _ := shows_constant rfl (by decide)
  have hcolon : Shows ": ".toList _ := shows_constant rfl (by decide)
  have hline := (shows_dim hmark).append ((shows_digits finding.location.line.val).append hcolon)
  refine isReadable_append_escape ?_
  convert hline.balanced using 1
  show ("  [dim]|--[/dim] " ++ toString finding.location.line.val ++ ": ").toList = _
  simp

theorem isReadable_adviceBlock {ruleId : String} {block : Block}
    (h : adviceBlock? ruleId = some block) : block.IsReadable := by
  obtain ⟨remedy, hremedy, rfl⟩ := Option.map_eq_some_iff.1 h
  obtain rfl : ruleId = namingRuleId := by
    by_contra hrule
    simp [remedy?, hrule] at hremedy
  have hmark : Shows "Fix:".toList _ := shows_constant rfl (by decide)
  have hspace : Shows [' '] _ := shows_constant rfl (by decide)
  have hrule : Markup.IsBalanced (Markup.escape ("[" ++ namingRuleId ++ "]")).toList := by
    refine @Markup.isBalanced_escape_bracket namingRuleId.toList (by decide) _ ?_
    simp [Piece.text]
  have hline := (shows_dim hmark).balanced.append (hrule.append hspace.balanced)
  show (Content.markup ("  [dim]Fix:[/dim] " ++ Markup.escape ("[" ++ namingRuleId ++ "]") ++ " " ++
    Markup.escape remedy)).IsReadable
  refine isReadable_append_escape ?_
  convert hline using 1
  simp

theorem render_markup_iff {text : String} :
    (Content.markup text).render = .ok text.toList ↔ IsInert text.toList :=
  Markup.render_eq_self_iff

/-- A label that can be shown in front of a tag. -/
def FitsHeading (label : String) : Prop :=
  IsInert label.toList ∧ label.toList.getLast? ≠ some '\\'

instance (label : String) : Decidable (FitsHeading label) := inferInstanceAs (Decidable (_ ∧ _))

theorem render_heading_iff {label : String} :
    (Content.markup s!"[bold cyan]{label}[/bold cyan]").render = .ok label.toList ↔
      FitsHeading label := by
  refine Markup.render_enclosed_iff names_boldCyan ?_
  show ("[bold cyan]" ++ label ++ "[/bold cyan]").toList = _
  simp [Piece.text]

/-- An inert text can be shown. -/
theorem isReadable_of_isInert {text : String} (h : IsInert text.toList) :
    (Content.markup text).IsReadable :=
  ⟨_, Markup.render_eq_self_iff.2 h⟩

theorem isReadable_constant {text : String}
    (h : text.toList.all (fun c => !isSquare c && !isMovement c) = true)
    (hlast : text.toList.getLast? ≠ some '\\') : (Content.markup text).IsReadable :=
  ⟨_, (shows_constant h hlast).render_eq⟩

theorem isReadable_digits (n : Nat) : (Content.markup (toString n)).IsReadable :=
  ⟨_, (shows_digits n).render_eq⟩

theorem isReadable_styled (text style : String) : (Content.styled text style).IsReadable := ⟨_, rfl⟩

/-! ## The tables and headings of the report -/

theorem isReadable_findingTable {findings : List Finding}
    (h : ∀ finding ∈ findings, (Content.markup finding.message).IsReadable) :
    (findingTable findings).IsReadable where
  headers := by
    simp only [findingTable, findingColumns, List.forall_mem_cons]
    refine ⟨?_, ?_, ?_, ?_, ?_, by simp⟩ <;> exact isReadable_constant rfl (by decide)
  cells := by
    intro row hrow
    obtain ⟨finding, hfinding, rfl⟩ := List.mem_map.1 hrow
    simp only [findingRow, List.forall_mem_cons]
    exact ⟨isReadable_digits _,
      isReadable_digits _, isReadable_styled _ _, isReadable_styled _ _,
      h finding hfinding, by simp⟩

theorem isReadable_fileTable {rows : List (String × FileRow)}
    (h : ∀ row ∈ rows, (Content.markup row.1).IsReadable) : (fileTable rows).IsReadable where
  headers := by
    simp only [fileTable, fileColumns, List.forall_mem_cons]
    refine ⟨?_, ?_, ?_, by simp⟩ <;> exact isReadable_constant rfl (by decide)
  cells := by
    intro cells hcells
    obtain ⟨row, hrow, rfl⟩ := List.mem_map.1 hcells
    have hstatus : row.2.status.content.IsReadable := by
      cases row.2.status <;> exact isReadable_styled _ _
    simp only [List.forall_mem_cons]
    exact ⟨h row hrow, hstatus, isReadable_digits _, by simp⟩

theorem isReadable_title : ∀ title ∈ (fileTable []).title, (Content.markup title).IsReadable := by
  simp only [fileTable, Option.mem_some_iff, forall_eq']
  exact isReadable_constant rfl (by decide)

theorem exists_render_heading_iff {label : String} {width : Nat} :
    (∃ lines, (heading label).render width = .ok lines) ↔
      (4 < width → (Content.markup s!"[bold cyan]{label}[/bold cyan]").IsReadable) := by
  refine Block.exists_render_panel_iff.trans ?_
  simp only [Inside.render, Content.exists_lines_iff]
  constructor
  · exact fun h hwidth => h (by omega) (by omega)
  · exact fun h _ hwidth => h (by omega)

/-- A table of findings reads the messages. -/
theorem exists_render_findingTable_iff {findings : List Finding} {width : Nat} :
    (∃ lines, (Block.table (findingTable findings)).render width = .ok lines) ↔
      (8 < width → ∀ finding ∈ findings, (Content.markup finding.message).IsReadable) := by
  rw [Block.exists_render_table_iff]
  constructor
  · rintro ⟨lines, hlines⟩ hwidth finding hfinding
    have hcolumn : (4, { header := "Message", style := "white" }) ∈
        (List.range 5).zip findingColumns := by decide
    refine Table.isReadable_of_render hlines hcolumn rfl hwidth _ ?_
    exact List.mem_cons_of_mem _ (List.mem_map.2
      ⟨findingRow finding, List.mem_map_of_mem hfinding, rfl⟩)
  · exact fun h => Table.exists_render (by simp [findingTable]) fun hwidth =>
      isReadable_findingTable (h hwidth)

/-- The table of all files reads their labels. -/
theorem exists_render_fileTable_iff {rows : List (String × FileRow)} {width : Nat} :
    (∃ lines, (fileTable rows).render width = .ok lines) ↔
      (6 < width → ∀ row ∈ rows, (Content.markup row.1).IsReadable) := by
  constructor
  · rintro ⟨lines, hlines⟩ hwidth row hrow
    have hcolumn : (0, { header := "File", style := "white" }) ∈
        (List.range 3).zip fileColumns := by decide
    refine Table.isReadable_of_render hlines hcolumn rfl hwidth _ ?_
    exact List.mem_cons_of_mem _ (List.mem_map.2 ⟨_, List.mem_map_of_mem hrow, rfl⟩)
  · exact fun h =>
      Table.exists_render isReadable_title fun hwidth => isReadable_fileTable (h hwidth)

end Report

end MemoAudit
