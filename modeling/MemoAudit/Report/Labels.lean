import MemoAudit.Report.Document
import MemoAudit.Workspace

/-!
# The report in a workspace

A report shows paths as they look from the working directory.  For a path that is caught in a loop
of links there is no such view, and the report breaks off where the path would have been shown.
-/

namespace MemoAudit.Workspace

/-- How a path is shown in a report: relative to the working directory if it lies there.  A path
that the system cannot be asked about is shown as it is. -/
def label (workspace : Workspace) (path : Path) : Except PathFault String :=
  match workspace.resolve path with
  | .ok resolved => .ok (path.shorten workspace.directory resolved).text
  | .error .nullCharacter => .ok path.text
  | .error fault => .error fault

/-- The report on findings as far as it goes, and what it broke off for, if it did. -/
def report (workspace : Workspace) (findings : List Finding) (analysed : List Path)
    (verbose : Bool) :
    List Report.Block × Option PathFault :=
  Report.document workspace.label findings analysed verbose

end MemoAudit.Workspace
