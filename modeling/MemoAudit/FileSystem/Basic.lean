import MemoAudit.Path
import MemoAudit.Text.Quoted
import MemoAudit.Text.Utf8

/-!
# File systems

A file system is a finite tree of named entries: regular files, directories, symbolic links and
whatever else an operating system keeps under a name.  A *place* is the list of names that leads to
an entry from the root, without dots and without passing through a link; every entry has exactly
one.

What a path denotes depends on links and is the subject of another module.  Here are the tree
itself, the entry at a place (`FileSystem.at?`), and the two ways of changing it.
-/

namespace MemoAudit

/-- What a directory allows: to list the names of its entries, and to pass through it to one of
them.  The one may be refused without the other. -/
structure Permissions where
  list : Bool := true
  pass : Bool := true
  deriving DecidableEq, Repr

instance : Inhabited Permissions := ⟨{}⟩

/-- What stands under a name in a directory.  A file may refuse to be read, and a directory may
refuse to list its entries or to be passed through.  The target of a link is kept as it was written,
because a slash at its end asks for a directory. -/
inductive Entry where
  | file (content : Bytes) (readable : Bool := true)
  | directory (entries : List (String × Entry)) (permissions : Permissions := {})
  | link (target : String)
  /-- Neither a file, nor a directory, nor a link: a device or a pipe. -/
  | special
  deriving Repr, Inhabited

/-- The entries of a directory, in the order in which it lists them. -/
abbrev Directory := List (String × Entry)

/-- The names that lead to an entry from the root. -/
abbrev Place := List String

namespace Entry

def isFile : Entry → Bool
  | .file .. => true
  | _ => false

def isDirectory : Entry → Bool
  | .directory .. => true
  | _ => false

/-- A directory that can be passed through. -/
def isPassable : Entry → Bool
  | .directory _ permissions => permissions.pass
  | _ => false

/-- The entry that is reached from an entry by names. -/
def at? : Entry → Place → Option Entry
  | entry, [] => some entry
  | .directory entries _, name :: rest => (entries.lookup name).bind fun inner => inner.at? rest
  | _, _ :: _ => none

@[simp] theorem at?_nil (entry : Entry) : entry.at? [] = some entry := by cases entry <;> rfl

/-- What an entry becomes when another is put in its place: a directory that is asked for again
keeps what it holds. -/
def replacedBy : Entry → Entry → Entry
  | .directory entries _, .directory [] permissions => .directory entries permissions
  | _, entry => entry

end Entry

namespace Directory

/-- A directory with an entry under a name, in the place of the old one or at the end. -/
def set (entries : Directory) (name : String) (entry : Entry) : Directory :=
  match entries with
  | [] => [(name, entry)]
  | (other, old) :: rest =>
    if other = name then (name, entry) :: rest else (other, old) :: set rest name entry

/-- Puts an entry at a place below a directory.  Directories on the way are made where there are
none. -/
def insert (entry : Entry) : Directory → Place → Directory
  | entries, [] => entries
  | entries, [name] =>
    entries.set name (((entries.lookup name).map (·.replacedBy entry)).getD entry)
  | entries, name :: next :: rest =>
    match entries.lookup name with
    | some (.directory inner permissions) =>
      entries.set name (.directory (insert entry inner (next :: rest)) permissions)
    | _ => entries.set name (.directory (insert entry [] (next :: rest)))

/-- Takes the entry at a place away, with everything below it. -/
def erase : Directory → Place → Directory
  | entries, [] => entries
  | entries, [name] => entries.filter fun entry => entry.1 != name
  | entries, name :: next :: rest =>
    match entries.lookup name with
    | some (.directory inner permissions) =>
      entries.set name (.directory (erase inner (next :: rest)) permissions)
    | _ => entries

/-- How many links there are in a directory and below it. -/
def linkCount : Directory → Nat
  | [] => 0
  | (_, .link _) :: rest => linkCount rest + 1
  | (_, .directory entries _) :: rest => linkCount entries + linkCount rest
  | (_, _) :: rest => linkCount rest

end Directory

/-- A file system: the entries of its root directory. -/
structure FileSystem where
  root : Directory := []
  deriving Repr, Inhabited

namespace FileSystem

/-- The entry at a place. -/
def at? (fs : FileSystem) (place : Place) : Option Entry :=
  (Entry.directory fs.root).at? place

/-- Whether one comes to a place, because all directories above it can be passed through. -/
def leadsTo (fs : FileSystem) (place : Place) : Bool :=
  (List.range place.length).all fun above => (fs.at? (place.take above)).any Entry.isPassable

end FileSystem

/-! ## Faults -/

/-- Why the operating system refuses something. -/
inductive AccessFault where
  | notFound
  | denied
  | notDirectory
  | isDirectory
  | nameTooLong
  | tooManyLinks
  deriving DecidableEq, Repr, Inhabited

namespace AccessFault

/-- The number by which the operating system knows the fault. -/
def code : AccessFault → Nat
  | .notFound => 2
  | .denied => 13
  | .notDirectory => 20
  | .isDirectory => 21
  | .nameTooLong => 36
  | .tooManyLinks => 40

def text : AccessFault → String
  | .notFound => "No such file or directory"
  | .denied => "Permission denied"
  | .notDirectory => "Not a directory"
  | .isDirectory => "Is a directory"
  | .nameTooLong => "File name too long"
  | .tooManyLinks => "Too many levels of symbolic links"

/-- What is said about a path that meets with the fault. -/
def message (fault : AccessFault) (path : Path) : String :=
  s!"[Errno {fault.code}] {fault.text}: {Text.quoted path.text}"

/-- Whether the fault means that there is nothing at a path. -/
def isAbsence : AccessFault → Bool
  | .notFound | .notDirectory | .tooManyLinks => true
  | .denied | .isDirectory | .nameTooLong => false

end AccessFault

/-- A fault at a path that is not just the absence of an entry. -/
inductive PathFault where
  | access (fault : AccessFault) (path : Path)
  | linkLoop (path : Path)
  /-- The path holds a null character, so that the system cannot be asked about it. -/
  | nullCharacter
  deriving DecidableEq, Repr, Inhabited

def PathFault.message : PathFault → String
  | .access fault path => fault.message path
  | .linkLoop path => s!"Symlink loop from {Text.quoted path.text}"
  | .nullCharacter => "embedded null byte"

end MemoAudit
