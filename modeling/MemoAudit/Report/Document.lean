import MemoAudit.Finding.Basic
import MemoAudit.Report.Markup
import MemoAudit.Rule
import MemoAudit.Text.Blank

/-!
# The report

The report on an analysis is a list of blocks: for every file with findings a heading, a table of
the findings, the source that they quote and, if asked for, advice; then a table of all files, and a
summary.  This file decides what the blocks say; how they look at a given width is decided in
`Report/Render`.

A block either takes text as markup or shows it as it is.  Paths and messages go into markup
unescaped, so that they can be misread; quoted source is escaped.
-/

namespace MemoAudit.Report

/-! ## Blocks -/

inductive Justify where
  | left
  | right
  deriving DecidableEq, Repr, Inhabited

def Justify.text : Justify → String
  | .left => "left"
  | .right => "right"

/-- The frames that blocks are drawn with. -/
inductive Frame where
  | simple
  | simpleHead
  | rounded
  deriving DecidableEq, Repr, Inhabited

def Frame.text : Frame → String
  | .simple => "SIMPLE"
  | .simpleHead => "SIMPLE_HEAD"
  | .rounded => "ROUNDED"

/-- Text that is read as markup, or text that is shown as it is in a style. -/
inductive Content where
  | markup (text : String)
  | styled (text style : String)
  deriving DecidableEq, Repr, Inhabited

/-- Text shown in a style, as the console takes it. -/
def Content.ofText (text style : String) : Content :=
  .styled (String.ofList (Markup.sanitize text.toList)) style

/-- A column of a table; one without a width is as wide as what it holds. -/
structure Column where
  header : String
  justify : Justify := .left
  style : String := ""
  width : Option Nat := none
  deriving DecidableEq, Repr, Inhabited

structure Table where
  title : Option String := none
  columns : List Column
  rows : List (List Content)
  frame : Frame
  headerStyle : String
  deriving DecidableEq, Repr, Inhabited

/-- What a panel holds. -/
inductive Inside where
  | content (content : Content)
  | table (table : Table)
  deriving DecidableEq, Repr, Inhabited

structure Panel where
  inside : Inside
  title : Option String := none
  borderStyle : String
  frame : Frame
  deriving DecidableEq, Repr, Inhabited

inductive Block where
  | blank
  | markup (text : String)
  | panel (panel : Panel)
  | table (table : Table)
  deriving DecidableEq, Repr, Inhabited

/-! ## Severities -/

/-- The severities that have a place of their own in the report, gravest first. -/
inductive Severity where
  | error
  | warning
  | convention
  | info
  deriving DecidableEq, Repr, Inhabited

namespace Severity

def all : List Severity := [.error, .warning, .convention, .info]

def name : Severity → String
  | .error => "error"
  | .warning => "warning"
  | .convention => "convention"
  | .info => "info"

def style : Severity → String
  | .error => "bold red"
  | .warning => "bold yellow"
  | .convention => "bold cyan"
  | .info => "bold blue"

/-- The severity written in any case.  The words are ASCII, and no other character has an ASCII
letter of these words as its lower case, so only ASCII capitals matter. -/
def ofText? (text : String) : Option Severity :=
  all.find? fun severity => severity.name.toList == text.toList.map Char.toLower

end Severity

/-- The style of a severity; an unknown one has the style of plain emphasis. -/
def severityStyle (text : String) : String :=
  ((Severity.ofText? text).map Severity.style).getD "bold white"

/-! ## One file -/

/-- The findings of each file that has any: the files by the text of their path, the findings of a
file in the order of listing. -/
def groups (findings : List Finding) : List (String × List Finding) :=
  let paths := (findings.map Finding.pathText).eraseDups
  (paths.mergeSort fun a b => a < b || a == b).map fun path =>
    (path, Finding.sort (findings.filter fun finding => finding.pathText == path))

def findingColumns : List Column := [
  { header := "Line", justify := .right, style := "dim", width := some 5 },
  { header := "Col", justify := .right, style := "dim", width := some 4 },
  { header := "Severity", width := some 11 },
  { header := "Rule", width := some 34 },
  { header := "Message", style := "white" }]

/-- The row about a finding. -/
def findingRow (finding : Finding) : List Content := [
  .markup (toString finding.location.line.val),
  .markup (toString finding.location.column.val),
  .ofText (Text.upper finding.severity) (severityStyle finding.severity),
  .ofText s!"[{finding.ruleId}]" "dim",
  .markup finding.message]

def findingTable (findings : List Finding) : Table where
  columns := findingColumns
  rows := findings.map findingRow
  frame := .simple
  headerStyle := "bold magenta"

/-- The source that a finding quotes, if it quotes any. -/
def quote? (finding : Finding) : Option String :=
  match finding.location.snippet with
  | some snippet => if snippet = "" then none else some snippet
  | none => none

/-- The line that quotes the source of a finding. -/
def quoteBlock? (finding : Finding) : Option Block :=
  (quote? finding).map fun snippet =>
    .markup <| s!"  [dim]|--[/dim] {finding.location.line.val}: " ++
      Markup.escape (Text.trim snippet)

/-- Lines that end with a blank one, unless there are none. -/
def withBlank (blocks : List Block) : List Block :=
  if blocks = [] then [] else blocks ++ [.blank]

def quotes (findings : List Finding) : List Block :=
  withBlank (findings.filterMap quoteBlock?)

/-- What to do about the findings of a rule. -/
def remedy? (ruleId : String) : Option String :=
  if ruleId = namingRuleId then
    some <| "Rename the memoized instance variable after its method " ++
      "(def foo -> @foo, or @_foo with the required/optional underscore style). " ++
      "For the defined? guard, rename the check, the return and the assignment together."
  else none

def adviceBlock? (ruleId : String) : Option Block :=
  (remedy? ruleId).map fun remedy =>
    let rule := Markup.escape s!"[{ruleId}]"
    .markup s!"  [dim]Fix:[/dim] {rule} {Markup.escape remedy}"

/-- The advice on each rule that has findings, once. -/
def advice (findings : List Finding) : List Block :=
  let rules := (findings.map Finding.ruleId).eraseDups
  if rules = [] then [] else rules.filterMap adviceBlock? ++ [.blank]

def heading (label : String) : Block :=
  .panel
    { inside := .content (.markup s!"[bold cyan]{label}[/bold cyan]")
      borderStyle := "blue"
      frame := .simpleHead }

/-- The blocks about one file. -/
def fileBlocks (verbose : Bool) (label : String) (findings : List Finding) : List Block :=
  [.blank, heading label, .table (findingTable findings)] ++ quotes findings ++
    if verbose then advice findings else []

/-! ## All files -/

/-- What the report says about a file as a whole. -/
inductive Status where
  | flagged
  | clean
  deriving DecidableEq, Repr, Inhabited

def Status.content : Status → Content
  | .flagged => .styled "FLAGGED" "bold yellow"
  | .clean => .styled "OK" "bold green"

/-- A line of the summary of files. -/
structure FileRow where
  path : Path
  status : Status
  count : Nat
  deriving DecidableEq, Repr, Inhabited

/-- How many findings are about a path. -/
def countFor (findings : List Finding) (path : Path) : Nat :=
  findings.countP fun finding => finding.pathText == path.text

def fileRow (findings : List Finding) (path : Path) : FileRow :=
  let count := countFor findings path
  ⟨path, if count = 0 then .clean else .flagged, count⟩

/-- Paths by their texts; equal texts keep their order. -/
def sortPaths (paths : List Path) : List Path :=
  paths.mergeSort fun a b => a.text < b.text || a.text == b.text

/-- A row for each analysed file, those with findings first. -/
def fileRows (findings : List Finding) (analysed : List Path) : List FileRow :=
  let isFlagged (path : Path) : Bool := countFor findings path != 0
  (sortPaths (analysed.filter isFlagged) ++ sortPaths (analysed.filter (!isFlagged ·))).map
    (fileRow findings)

def fileColumns : List Column := [
  { header := "File", style := "white" },
  { header := "Status", width := some 10 },
  { header := "Offenses", justify := .right, width := some 8 }]

/-- The table of files, each under the label with which it is shown. -/
def fileTable (rows : List (String × FileRow)) : Table where
  title := some "Files Summary"
  columns := fileColumns
  rows := rows.map fun (label, row) =>
    [.markup label, row.status.content, .markup (toString row.count)]
  frame := .rounded
  headerStyle := "bold cyan"

def fileSummary (rows : List (String × FileRow)) : List Block :=
  [.blank,
    .panel
      { inside := .table (fileTable rows)
        borderStyle := "cyan"
        frame := .rounded }]

/-! ## The summary -/

/-- How many findings have a severity. -/
def severityCount (findings : List Finding) (severity : Severity) : Nat :=
  findings.countP fun finding => Severity.ofText? finding.severity == some severity

/-- The part of the summary about one severity, if there are such findings. -/
def severityPart? (findings : List Finding) (severity : Severity) : Option String :=
  let count := severityCount findings severity
  if count = 0 then none else some s!"[{severity.style}]{count} {severity.name}[/]"

def summaryText (findings : List Finding) : String :=
  let total := findings.length
  let offenses := if total = 1 then "offense" else "offenses"
  " | ".intercalate
    (s!"[bold]{total} {offenses}[/bold]" :: Severity.all.filterMap (severityPart? findings))

def summary (findings : List Finding) : List Block :=
  [.blank,
    .panel
      { inside := .content (.markup (summaryText findings))
        title := some "Summary"
        borderStyle := if findings = [] then "green" else "yellow"
        frame := .rounded }]

/-- The whole report when there is nothing to say. -/
def nothingFound : Block :=
  .panel
    { inside := .content (.markup "[green]No offenses found.[/green]")
      title := some "MemoLint Analysis"
      borderStyle := "green"
      frame := .rounded }

/-! ## The whole report

A report shows files by labels, and not every file may have one.  Where a label cannot be given, the
report breaks off: it has a fault, and the blocks that come before it. -/

section

variable {ε : Type}

/-- What comes after the blocks, unless the report breaks off with them. -/
def andThen (blocks : List Block × Option ε) (rest : List Block × Option ε) :
    List Block × Option ε :=
  match blocks with
  | (front, none) => (front ++ rest.1, rest.2)
  | (front, some fault) => (front, some fault)

variable (label : Path → Except ε String)

/-- The blocks about files with findings.  The blank line above a heading comes before its label is
asked for. -/
def sections (verbose : Bool) : List (String × List Finding) → List Block × Option ε
  | [] => ([], none)
  | (path, found) :: rest =>
    match label (Path.ofString path) with
    | .error fault => ([.blank], some fault)
    | .ok shown => andThen (fileBlocks verbose shown found, none) (sections verbose rest)

/-- Rows with the labels of their files. -/
def labelledRows (rows : List FileRow) : Except ε (List (String × FileRow)) :=
  rows.mapM fun row => return (← label row.path, row)

/-- The table of all files; all labels are asked for before anything of it is shown. -/
def allFiles (findings : List Finding) (analysed : List Path) : List Block × Option ε :=
  if analysed = [] then ([], none)
  else
    match labelledRows label (fileRows findings analysed) with
    | .error fault => ([], some fault)
    | .ok rows => (fileSummary rows, none)

/-- The report on findings, given how paths are shown and which files were analysed, if that is
known: its blocks, and what it broke off for, if it did. -/
def document (findings : List Finding) (analysed : List Path) (verbose : Bool) :
    List Block × Option ε :=
  if findings = [] ∧ analysed = [] then ([nothingFound], none)
  else
    andThen (sections label verbose (groups findings)) <|
      andThen (allFiles label findings analysed) (summary findings, none)

end

end MemoAudit.Report
