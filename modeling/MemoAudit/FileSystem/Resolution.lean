import MemoAudit.FileSystem.Basic

/-!
# What paths denote

There are two readings of a path.

*Locating* (`FileSystem.locate`) is what the operating system does when a path is used: names are
looked up one after the other, a link puts its target in front of what is left, and two dots lead to
the directory above the one that has been reached.  Every directory in which something is looked up
must let itself be passed through.  No more than `linkLimit` links are followed.  The number of
links that may still be followed and the number of parts that are left decrease lexicographically.

*Resolving* (`FileSystem.resolve`) finds a spelling of a path without links and dots.  It works on
the text of the path and of the links in it, and it never gives up: parts that lead nowhere or that
the system does not show are kept as they are, two dots after them take them away again, and where
links lead back to themselves the rest of the text is kept.  Only a path that is still caught in
such a loop after all this is refused.
-/

namespace MemoAudit

/-- How many links are followed on the way to one entry. -/
def linkLimit : Nat := 40

/-- How many bytes a name may have. -/
def nameLimit : Nat := 255

/-- How many bytes the text of a path may have. -/
def pathLimit : Nat := 4095

/-- The text of the path has more bytes than the system takes. -/
def Path.isTooLong (path : Path) : Bool := path.text.utf8ByteSize > pathLimit

/-- An entry that has been reached, its place, and how many links may still be followed. -/
structure Reached where
  place : Place
  entry : Entry
  links : Nat
  deriving Repr, Inhabited

/-- Why a name that a directory does not hold cannot be found there. -/
def missingName (name : String) : AccessFault :=
  if name.utf8ByteSize > nameLimit then .nameTooLong else .notFound

/-- Where a link leads to from the directory that holds it. -/
def linkStart (directory : Place) (target : String) : Place :=
  if Path.startsAtRoot target then [] else directory

namespace FileSystem

/-- Follows parts from a place, through at most the given number of links.  An empty part, as a
slash at the end leaves it, asks for a directory and looks nothing up in it. -/
def locate (fs : FileSystem) (links : Nat) (here : Place) (parts : List String) :
    Except AccessFault Reached :=
  match fs.at? here, parts with
  | none, _ => .error .notFound
  | some entry, [] => .ok ⟨here, entry, links⟩
  | some (.directory entries permissions), part :: rest =>
    if part = "" then fs.locate links here rest
    else if permissions.pass = false then .error .denied
    else if part = "." then fs.locate links here rest
    else if part = ".." then fs.locate links here.dropLast rest
    else
      match entries.lookup part, links with
      | none, _ => .error (missingName part)
      | some (.link _), 0 => .error .tooManyLinks
      | some (.link target), links + 1 =>
        fs.locate links (linkStart here target) (Path.pieces target ++ rest)
      | some _, links => fs.locate links (here ++ [part]) rest
  | some _, _ :: _ => .error .notDirectory
termination_by (links, parts.length)

/-- Links are used up on the way and never gained. -/
theorem links_le_of_locate {fs : FileSystem} {links : Nat} {here : Place} {parts : List String}
    {reached : Reached} (h : fs.locate links here parts = .ok reached) : reached.links ≤ links := by
  fun_induction fs.locate links here parts with
  | case2 => cases h; exact Nat.le_refl _
  | case3 => rename_i ih; exact ih h
  | case5 => rename_i ih; exact ih h
  | case6 => rename_i ih; exact ih h
  | case9 => rename_i ih; exact Nat.le_succ_of_le (ih h)
  | case10 => rename_i ih; exact ih h
  | case1 | case4 | case7 | case8 | case11 => cases h

/-- The entry that a path, read from within a directory, leads to. -/
def find (fs : FileSystem) (directory path : Path) : Except AccessFault Entry :=
  if path.isTooLong then .error .nameTooLong
  else (fs.locate linkLimit [] (path.within directory).parts).map Reached.entry

/-! ## Resolving -/

/-- The target of the link that a spelling without other links names, if there is one and the system
shows it. -/
def linkTarget? (fs : FileSystem) (directory path : Path) : Option String :=
  let place := (path.normalize directory).parts
  if path.isTooLong || !fs.leadsTo place then none
  else
    match fs.at? place with
    | some (.link target) => some target
    | _ => none

/-- Reads the pieces of a text from a spelling on, as far as they can be read; relative spellings
are read from within the directory.  The links that are being followed are *pending* under their
spellings: coming to one of them again is a loop, and then the outcome is an error that holds the
text as it stands.  `depth` bounds the nesting of links. -/
def follow (fs : FileSystem) (directory : Path) (depth : Nat) (pending : List Path) (before : Path)
    (pieces : List String) : Except String Path :=
  match pieces with
  | [] => .ok before
  | piece :: rest =>
    if piece = "" || piece = "." then fs.follow directory depth pending before rest
    else if piece = ".." then fs.follow directory depth pending before.above rest
    else
      let next := before.child piece
      let restText := "/".intercalate rest
      match fs.linkTarget? directory next, depth with
      | some _, 0 => .error (Path.joinTexts next.text restText)
      | some target, depth + 1 =>
        if next ∈ pending then .error (Path.joinTexts next.text restText)
        else
          let start := if Path.startsAtRoot target then Path.rootDirectory else before
          match fs.follow directory depth (next :: pending) start (Path.pieces target) with
          | .error stuck => .error (Path.joinTexts stuck restText)
          | .ok real => fs.follow directory (depth + 1) pending real rest
      | none, depth => fs.follow directory depth pending next rest
termination_by (depth, pieces.length)

/-- The spelling of a path, read from within a directory, when all links in it are followed.  A link
has at most two spellings, one from the root and one from the directory. -/
def realPath (fs : FileSystem) (directory path : Path) : Path :=
  let start : Path := if path.isAbsolute then Path.rootDirectory else ⟨.relative, []⟩
  let spelled :=
    match fs.follow directory (2 * fs.root.linkCount) [] start path.parts with
    | .ok real => real
    | .error stuck => Path.ofString stuck
  let whole := spelled.within directory
  { whole with parts := Path.resolveParts whole.parts }

/-- The spelling of a path, read from within a directory, without links and dots. -/
def resolve (fs : FileSystem) (directory path : Path) : Except PathFault Path :=
  if path.isPresentable then
    let real := fs.realPath directory path
    match fs.find directory real with
    | .error .tooManyLinks => .error (.linkLoop real)
    | _ => .ok real
  else .error .nullCharacter

/-! ## Changing a file system -/

/-- The place that an absolute path spells when all links in it are followed. -/
def realPlace (fs : FileSystem) (path : Path) : Place := (fs.realPath Path.rootDirectory path).parts

/-- The place under which an absolute path names an entry: links on the way to it are followed, but
not the entry itself. -/
def placeOf (fs : FileSystem) (path : Path) : Place :=
  fs.realPlace path.parent ++ path.parts.getLast?.toList

/-- Puts an entry at an absolute path.  Files and directories are put where a link of that name
leads, other entries replace it. -/
def put (fs : FileSystem) (path : Path) (entry : Entry) : FileSystem :=
  let place := if entry.isFile || entry.isDirectory then fs.realPlace path else fs.placeOf path
  { root := fs.root.insert entry place }

/-- Takes the entry at an absolute path away. -/
def remove (fs : FileSystem) (path : Path) : FileSystem :=
  { root := fs.root.erase (fs.placeOf path) }

end FileSystem

end MemoAudit
