import MemoAudit.Path

/-!
# What a search selects

A search for Ruby sources passes over directories that hold generated files, dependencies or the
data of other tools, and may be given a filter of its own.
-/

namespace MemoAudit

/-- The names of directories that are passed over unless something else is asked for. -/
def defaultIgnored : List String := [
  "build", "dist", "pkg", "tmp", "log", "coverage", "public",
  "vendor", "node_modules", ".bundle",
  ".git", ".svn", ".hg",
  ".vscode", ".idea",
  ".cache", "__pycache__", ".pytest_cache"]

/-- Whether a directory is passed over, judging by its name alone. -/
def isIgnored (ignored : List String) (directory : Path) : Bool := ignored.contains directory.name

/-- What to look for. -/
structure Selection where
  ignored : List String := defaultIgnored
  /-- Whether symbolic links are followed; otherwise they are skipped. -/
  followLinks : Bool := false
  /-- A further condition on files, if any. -/
  filter : Option (Path → Bool) := none

instance : Inhabited Selection := ⟨{}⟩

/-- Whether a file passes the further condition. -/
def Selection.keeps (selection : Selection) (file : Path) : Bool :=
  selection.filter.all (· file)

end MemoAudit
