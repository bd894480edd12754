import MemoAudit.Toml.Reader
import MemoAudit.Workspace

/-!
# Snapshots of workspaces

The command does not look at the disk by itself, and it does not know the grammar of Ruby.  Both
come to it in a *snapshot*: a document that lists the entries of a file system, each with its path
and its kind, and gives the parse trees of sources beside them.

```text
directory = "/home/me/app"
columns = 100

[[entry]]
path = "lib/a.rb"
text = "@a\n"
tree = { type = "program", start = [0, 0, 0], end = [3, 1, 0], children = [
  { type = "instance_variable", start = [0, 0, 0], end = [2, 0, 2] } ] }

[[entry]]
path = "current"
kind = "link"
target = "lib"
```

Relative paths are read from within the directory.  Everything but the path of an entry has a
default: an entry is a file without text, and a source without a tree parses as an empty program.  A
file that is `closed` cannot be read and a directory not be listed, and a directory that is `sealed`
cannot be passed through.  A value of the wrong type is as good as none.
-/

namespace MemoAudit

/-- A workspace and the width of the terminal from which it is looked at. -/
structure Snapshot where
  workspace : Workspace
  columns : Nat

namespace Toml

namespace Table

def text? (entries : Table) (key : String) : Option String :=
  match entries.lookup key with
  | some (.text value) => some value
  | _ => none

def flag (entries : Table) (key : String) : Bool :=
  match entries.lookup key with
  | some (.boolean value) => value
  | _ => false

def items (entries : Table) (key : String) : List Value :=
  match entries.lookup key with
  | some (.array _ values) => values
  | _ => []

def tables (entries : Table) (key : String) : List Table :=
  (entries.items key).filterMap fun
    | .table _ inner => some inner
    | _ => none

/-- A point of a source: its byte, row and column. -/
def point (entries : Table) (key : String) : Point :=
  match entries.items key with
  | [.integer byte, .integer row, .integer column] => ⟨byte, row, column⟩
  | _ => ⟨0, 0, 0⟩

end Table

/-- The parse tree that a table describes, down to a depth. -/
def parseTree (entries : Table) : Nat → ParseTree
  | 0 => .node default []
  | depth + 1 =>
    .node
      { kind := (entries.text? "type").getD ""
        start := entries.point "start"
        stop := entries.point "end"
        named := !entries.flag "anonymous"
        field := entries.text? "field" }
      ((entries.tables "children").map fun child => parseTree child depth)

end Toml

namespace Snapshot

/-- The width of a terminal that says nothing about it. -/
def defaultColumns : Nat := 80

/-- The entry of a file system that a table describes. -/
def entry (entries : Toml.Table) : Entry :=
  match entries.text? "kind" with
  | some "directory" =>
    .directory [] { list := !entries.flag "closed", pass := !entries.flag "sealed" }
  | some "link" => .link ((entries.text? "target").getD "")
  | some "special" => .special
  | _ => .file (Text.Utf8.encode ((entries.text? "text").getD "")) (!entries.flag "closed")

/-- The source of an entry and its parse, if the entry gives one. -/
def known? (depth : Nat) (entries : Toml.Table) : Option (Bytes × Parsed) :=
  match entries.lookup "tree" with
  | some (.table _ tree) =>
    some (Text.Utf8.encode ((entries.text? "text").getD ""),
      ⟨Toml.parseTree tree depth, entries.flag "errors"⟩)
  | _ => none

/-- The snapshot that a document describes.  Nothing in it is nested more deeply than `depth`. -/
def ofDocument (document : Toml.Table) (depth : Nat) : Snapshot :=
  let directory : Path :=
    (Path.ofString ((document.text? "directory").getD "/")).normalize Path.rootDirectory
  let described := document.tables "entry"
  let known := (described.filterMap (known? depth)).reverse
  { workspace :=
      { files := described.foldl
          (fun files entries =>
            files.put ((Path.ofString ((entries.text? "path").getD "")).within directory)
              (entry entries))
          (FileSystem.put {} directory (.directory []))
        directory
        parse := fun source => (known.lookup source).getD (.blank source) }
    columns :=
      match document.lookup "columns" with
      | some (.integer columns) => columns.toNat
      | _ => defaultColumns }

/-- Reads a snapshot.  A document is never nested more deeply than it is long. -/
def read (text : String) : Option Snapshot :=
  (Toml.read text).map fun document => ofDocument document text.length

end Snapshot

end MemoAudit
