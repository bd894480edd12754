import MemoAudit.FileSystem.Resolution
import MemoAudit.ParseTree.Parsed

/-!
# Workspaces

Everything that a run depends on besides what it is asked for: the files, the working directory from
which relative paths are read, and the parser.
-/

namespace MemoAudit

structure Workspace where
  files : FileSystem
  /-- The working directory, an absolute path without links.  It is one that can be passed through,
  and so are those above it. -/
  directory : Path
  parse : Parser

instance : Inhabited Workspace :=
  ⟨{ files := {}, directory := Path.rootDirectory, parse := Parsed.blank }⟩

namespace Workspace

/-- The spelling of a path without links and dots. -/
def resolve (workspace : Workspace) (path : Path) : Except PathFault Path :=
  workspace.files.resolve workspace.directory path

/-- The entry that a path leads to. -/
def find (workspace : Workspace) (path : Path) : Except AccessFault Entry :=
  workspace.files.find workspace.directory path

/-- The entry that a path leads to, if there is one. -/
def entry? (workspace : Workspace) (path : Path) : Except PathFault (Option Entry) :=
  match workspace.find path with
  | .ok entry => .ok (some entry)
  | .error fault => if fault.isAbsence then .ok none else .error (.access fault path)

/-- Whether a path leads to a regular file. -/
def isFile (workspace : Workspace) (path : Path) : Except PathFault Bool :=
  (workspace.entry? path).map fun entry => entry.any Entry.isFile

/-- The bytes of a file. -/
def read (workspace : Workspace) (path : Path) : Except AccessFault Bytes :=
  match workspace.find path with
  | .error fault => .error fault
  | .ok (.file content true) => .ok content
  | .ok (.file _ false) => .error .denied
  | .ok (.directory ..) => .error .isDirectory
  | .ok (.link _) => .error .tooManyLinks
  | .ok .special => .ok []

end Workspace

end MemoAudit
