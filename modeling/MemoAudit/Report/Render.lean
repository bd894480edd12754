import MemoAudit.Report.Document
import MemoAudit.Report.Layout

/-!
# The report as lines of text

How each block of a report looks on a console of a given width, without colours.  Panels are as wide
as the console; a table is as wide as its columns need.  If that is too much, the column without a
fixed width gives way, and if there is still too much, all columns give up the same.  What goes
beyond the width is cut off in the end.

A line is put together from pieces, and where it is cut, it is the piece across the end that is cut.
Where no cell is left for a content, it is not even read: markup that cannot be read is a fault of
its block only if it is measured or shown.  Nothing of a block with a fault is shown.
-/

namespace MemoAudit.Report

open Text Layout

/-! ## Lines -/

/-- A line on the console, in the pieces that it is put together from. -/
abbrev Line := List (List Char)

namespace Line

def cells (line : Line) : Nat := Text.cells line.flatten

/-- The pieces that lie within a width, with the one across its end cut. -/
def take (width : Nat) : Line → Line
  | [] => []
  | piece :: rest =>
    if Text.cells piece < width then piece :: take (width - Text.cells piece) rest
    else [fit width piece]

/-- A line without what goes beyond the width. -/
def crop (width : Nat) (line : Line) : Line :=
  if width < cells line then take width line else line

/-- A line cropped or filled up to the width. -/
def shape (width : Nat) (line : Line) : Line :=
  if cells line < width then line ++ [spaces (width - cells line)] else crop width line

end Line

/-- What a content shows. -/
def Content.render : Content → Except Markup.Fault (List Char)
  | .markup text => Markup.render text
  | .styled text _ => .ok text.toList

/-- The lines of a content at a width; without a cell there are none. -/
def Content.lines (content : Content) (width : Nat) (overflow : Overflow)
    (alignment : LineAlignment) :
    Except Markup.Fault (List Line) :=
  if width = 0 then .ok []
  else do return (wrap width overflow alignment (← content.render)).map fun line => [line]

/-- Lines inside a width with a space on both sides. -/
def padded (width : Nat) (lines : List Line) : List Line :=
  lines.map fun line => Line.shape width ([' '] :: Line.shape (width - 2) line ++ [[' ']])

/-! ## Frames -/

/-- The characters that a frame of a table is drawn with. -/
structure Strokes where
  topLeft : Char
  top : Char
  topDivider : Char
  topRight : Char
  edge : Char
  divider : Char
  headLeft : Char
  head : Char
  headDivider : Char
  headRight : Char
  bottomLeft : Char
  bottom : Char
  bottomDivider : Char
  bottomRight : Char

def roundedStrokes : Strokes where
  topLeft := '╭'
  top := '─'
  topDivider := '┬'
  topRight := '╮'
  edge := '│'
  divider := '│'
  headLeft := '├'
  head := '─'
  headDivider := '┼'
  headRight := '┤'
  bottomLeft := '╰'
  bottom := '─'
  bottomDivider := '┴'
  bottomRight := '╯'

/-- A frame without edges, with a rule under the header only. -/
def simpleStrokes : Strokes where
  topLeft := ' '
  top := ' '
  topDivider := ' '
  topRight := ' '
  edge := ' '
  divider := ' '
  headLeft := ' '
  head := '─'
  headDivider := '─'
  headRight := ' '
  bottomLeft := ' '
  bottom := ' '
  bottomDivider := ' '
  bottomRight := ' '

def Frame.strokes : Frame → Strokes
  | .rounded => roundedStrokes
  | .simple | .simpleHead => simpleStrokes

/-! ## Widths of columns -/

/-- The cells that a content would like to have in a column of the given width, with a space on both
sides. -/
def Content.wish (content : Content) (available : Nat) : Except Markup.Fault Nat :=
  if available ≤ 2 then .ok available
  else do return min available (widest 0 (← content.render) + 2)

/-- The widest of several wishes. -/
def widestWish (available : Nat) : List Content → Except Markup.Fault Nat
  | [] => .ok 0
  | content :: rest => do return max (← content.wish available) (← widestWish available rest)

/-- The contents of a column, its header first. -/
def Table.columnContents (table : Table) (position : Nat) (column : Column) : List Content :=
  .markup column.header :: table.rows.map fun row => row.getD position (.markup "")

/-- The width of a column, with the spaces around its cells, if it may have so much. -/
def Table.columnWidth (table : Table) (position : Nat) (column : Column) (available : Nat) :
    Except Markup.Fault Nat :=
  if available = 0 then .ok 0
  else
    match column.width with
    | some width => .ok (min available (width + 2))
    | none => widestWish available (table.columnContents position column)

/-- The quotient rounded to the nearest number, and to the even one of two. -/
def roundedQuotient (dividend divisor : Nat) : Nat :=
  let whole := dividend / divisor
  let rest := 2 * (dividend % divisor)
  if divisor < rest || (rest = divisor && whole % 2 = 1) then whole + 1 else whole

/-- Takes an excess from widths, in equal parts from those that are not zero.  Each width gives the
rounded part of what is still to be taken, and `sharers` counts the widths that are still to
give. -/
def shareExcess (excess sharers : Nat) : List Nat → List Nat
  | [] => []
  | width :: rest =>
    if width = 0 then width :: shareExcess excess sharers rest
    else
      let given := min width (roundedQuotient excess sharers)
      (width - given) :: shareExcess (excess - given) (sharers - 1) rest

def total (widths : List Nat) : Nat := widths.foldl (· + ·) 0

/-- Narrower columns, so that they fit the width if possible: first the columns without a fixed
width give way, then all. -/
def narrowed (columns : List Column) (widths : List Nat) (available : Nat) : List Nat :=
  let excess := total widths - available
  let flexed := (columns.zip widths).map fun (column, width) =>
    if column.width.isSome then width else width - excess
  let sharers := flexed.countP (· != 0)
  if available < total flexed then shareExcess (total flexed - available) sharers flexed else flexed

/-- The widths of the columns of a table when the given width is available to them.  A column that
has been narrowed may then need less than it was left. -/
def Table.columnWidths (table : Table) (available : Nat) : Except Markup.Fault (List Nat) := do
  let positions := List.range table.columns.length
  let wished ← (positions.zip table.columns).mapM fun (position, column) =>
    table.columnWidth position column available
  let widths := wished.map (max 1)
  if total widths ≤ available then return widths
  else
    ((positions.zip table.columns).zip (narrowed table.columns widths available)).mapM
      fun ((position, column), width) => table.columnWidth position column width

/-! ## Tables -/

/-- A horizontal line of a table. -/
def ruleLine (left fill divider right : Char) (widths : List Nat) : Line :=
  let segments := widths.map fun width => List.replicate width fill
  [left :: [divider].intercalate segments ++ [right]]

def Justify.alignment : Justify → LineAlignment
  | .left => .left
  | .right => .right

/-- The lines of one cell. -/
def cellLines (column : Column) (width : Nat) (content : Content) :
    Except Markup.Fault (List Line) := do
  return padded width (← content.lines (width - 2) .ellipsis column.justify.alignment)

/-- Where the text of a row stands that is shorter than its row. -/
inductive Rise where
  | top
  | bottom
  deriving DecidableEq, Repr, Inhabited

/-- Lines filled up to a height with blank ones. -/
def raise (rise : Rise) (width height : Nat) (lines : List Line) : List Line :=
  let blanks := List.replicate (height - lines.length) [spaces width]
  match rise with
  | .top => lines ++ blanks
  | .bottom => blanks ++ lines

/-- The lines of one row: as many as its tallest cell has, and at least one. -/
def rowLines (strokes : Strokes) (rise : Rise) (columns : List Column) (widths : List Nat)
    (row : List Content) : Except Markup.Fault (List Line) := do
  let shown ← ((columns.zip widths).zip row).mapM fun ((column, width), content) =>
    return (width, ← cellLines column width content)
  let height := max 1 ((shown.map fun (_, lines) => lines.length).foldl max 0)
  let blocks := shown.map fun (width, lines) => raise rise width height lines
  return (List.range height).map fun position =>
    let pieces := blocks.map fun lines => lines.getD position []
    [strokes.edge] :: [[strokes.divider]].intercalate pieces ++ [[strokes.edge]]

/-- A table on the console, when the given width is available.  The edges and the dividers take a
cell each. -/
def Table.render (table : Table) (available : Nat) : Except Markup.Fault (List Line) :=
  if available = 0 then .ok []
  else do
    let strokes := table.frame.strokes
    let strokeCells := table.columns.length + 1
    let widths ← table.columnWidths (available - strokeCells)
    let title ← match table.title with
      | none => pure []
      | some title => Content.lines (.markup title) (total widths + strokeCells) .fold .centre
    let header ← rowLines strokes .bottom table.columns widths
      (table.columns.map fun column => .markup column.header)
    let rows ← table.rows.mapM (rowLines strokes .top table.columns widths)
    return title ++
      [ruleLine strokes.topLeft strokes.top strokes.topDivider strokes.topRight widths] ++
      header ++
      [ruleLine strokes.headLeft strokes.head strokes.headDivider strokes.headRight widths] ++
      rows.flatten ++
      [ruleLine strokes.bottomLeft strokes.bottom strokes.bottomDivider strokes.bottomRight widths]

/-! ## Panels and blocks -/

/-- The lines inside a panel. -/
def Inside.render (inside : Inside) (width : Nat) : Except Markup.Fault (List Line) :=
  match inside with
  | .content shown => shown.lines width .fold .asIs
  | .table shown => shown.render width

/-- The upper edge of a panel, with its title in the middle if there is room. -/
def panelTop (strokes : Strokes) (title : Option String) (width : Nat) : Line :=
  let bare := ruleLine strokes.topLeft strokes.top strokes.topDivider strokes.topRight [width - 2]
  match title with
  | none => bare
  | some title =>
    if width ≤ 4 then bare
    else
      let name := cutShort (width - 4) .fold (' ' :: title.toList ++ [' '])
      [[strokes.topLeft, strokes.top], centre strokes.top (width - 4) name,
        [strokes.top, strokes.topRight]]

/-- A panel as wide as the console. -/
def Panel.render (panel : Panel) (width : Nat) : Except Markup.Fault (List Line) :=
  if width = 0 then .ok []
  else do
    let strokes := panel.frame.strokes
    let lines := padded (width - 2) (← panel.inside.render (width - 4))
    return [panelTop strokes panel.title width] ++
      lines.map (fun line => [strokes.edge] :: line ++ [[strokes.edge]]) ++
      [ruleLine strokes.bottomLeft strokes.bottom strokes.bottomDivider strokes.bottomRight
        [width - 2]]

/-- A block on a console of the given width.  Text outside of panels and tables is read in any
case. -/
def Block.render (block : Block) (width : Nat) : Except Markup.Fault (List String) := do
  let lines : List Line ← match block with
    | .blank => pure (if width = 0 then [] else [[]])
    | .markup text => do
      let shown ← Markup.render text
      pure (if width = 0 then [] else (wrap width .fold .asIs shown).map fun line => [line])
    | .panel shown => shown.render width
    | .table shown => shown.render width
  return lines.map fun line => String.ofList (Line.crop width line).flatten

/-- A report on a console of the given width: the lines up to the first block that cannot be shown,
and the fault of that block, if there is one. -/
def render (width : Nat) : List Block → List String × Option Markup.Fault
  | [] => ([], none)
  | block :: rest =>
    match block.render width with
    | .error fault => ([], some fault)
    | .ok lines =>
      let (more, fault) := render width rest
      (lines ++ more, fault)

end MemoAudit.Report
