import MemoAudit.Discovery.Selection
import MemoAudit.Log
import MemoAudit.Workspace

/-!
# Searching for Ruby sources

A search goes through the entries of a directory one by one (`FileSystem.searchIn`).  What is at an
entry is decided first (`FileSystem.sight`): links are skipped or followed, and everything else is
taken for what it is.  Directories below are searched in the same way unless their name is ignored;
the name of the directory in which the search starts does not matter.  A directory that cannot be
listed loses its own files and no others.

The system may refuse to say what is at an entry: its path may be too long, or the directory cannot
be passed through.  That ends the search of the directory, and the entries that it would have listed
after this one are lost.

A search that follows links may come to a directory again and again, under ever longer paths, but
each time fewer links may be followed; this number, and then the size of the entries, bound the
recursion.
-/

namespace MemoAudit

/-- What a search sees at an entry. -/
inductive Sighting where
  | skippedLink
  /-- Nothing that a search cares for: a pipe, or a link that leads nowhere. -/
  | nothing
  /-- The system refuses to say what is there. -/
  | refused (fault : AccessFault)
  | file
  /-- A directory at a place, below which so many links may still be followed. -/
  | directory (place : Place) (links : Nat) (entries : Directory) (permissions : Permissions)
  deriving Repr, Inhabited

/-- What a search sees at an entry that is not a link. -/
def Sighting.ofEntry (place : Place) (links : Nat) : Entry → Sighting
  | .file .. => .file
  | .directory entries permissions => .directory place links entries permissions
  | .link _ | .special => .nothing

/-- What a search sees at the target of a link. -/
def Sighting.ofTarget : Except AccessFault Reached → Sighting
  | .ok reached => .ofEntry reached.place reached.links reached.entry
  | .error fault => if fault.isAbsence then .nothing else .refused fault

/-- Why the system refuses to look at a path in a directory, if it does. -/
def Permissions.refusal? (permissions : Permissions) (path : Path) : Option AccessFault :=
  if path.isTooLong then some .nameTooLong else if permissions.pass then none else some .denied

/-- What a search sees at an entry that the system looks at, in the directory at a place. -/
def FileSystem.sightOf (fs : FileSystem) (followLinks : Bool) (place : Place) (links : Nat)
    (name : String) : Entry → Sighting
  | .link target =>
    if followLinks then
      match links with
      | 0 => .nothing
      | links + 1 => .ofTarget (fs.locate links (linkStart place target) (Path.pieces target))
    else .skippedLink
  | entry => .ofEntry (place ++ [name]) links entry

/-- What a search sees at an entry of the directory at a place.  The directory was come to under the
path `shown`. -/
def FileSystem.sight (fs : FileSystem) (followLinks : Bool) (place : Place) (links : Nat)
    (permissions : Permissions) (shown : Path) (name : String) (entry : Entry) : Sighting :=
  match permissions.refusal? (shown.child name) with
  | some fault => .refused fault
  | none => fs.sightOf followLinks place links name entry

/-- A directory that is seen through a link has fewer links to follow, and any other one is a part
of the entry itself. -/
theorem FileSystem.sight_directory_lt {fs : FileSystem} {followLinks : Bool} {place inner : Place}
    {links left : Nat} {permissions permissions' : Permissions} {shown : Path} {name : String}
    {entry : Entry} {entries : Directory}
    (h : fs.sight followLinks place links permissions shown name entry =
      .directory inner left entries permissions') :
    left < links ∨ left = links ∧ sizeOf entries < sizeOf entry := by
  unfold sight at h
  split at h
  · contradiction
  cases entry with
  | file => simp [sightOf, Sighting.ofEntry] at h
  | special => simp [sightOf, Sighting.ofEntry] at h
  | directory entries' permissions =>
    simp only [sightOf, Sighting.ofEntry, Sighting.directory.injEq] at h
    obtain ⟨-, rfl, rfl, -⟩ := h
    have := Entry.directory.sizeOf_spec entries' permissions
    exact .inr ⟨rfl, by omega⟩
  | link target =>
    left
    cases followLinks with
    | false => simp [sightOf] at h
    | true =>
      cases links with
      | zero => simp [sightOf] at h
      | succ links =>
        simp only [sightOf, if_true] at h
        cases hr : fs.locate links (linkStart place target) (Path.pieces target) with
        | error fault =>
          rw [hr, Sighting.ofTarget] at h
          split at h <;> contradiction
        | ok reached =>
          have hle := links_le_of_locate hr
          rw [hr, Sighting.ofTarget] at h
          cases he : reached.entry <;> rw [he, Sighting.ofEntry] at h <;> cases h
          omega

/-! ## Going through a directory -/

/-- Says that a directory could not be gone through to its end. -/
def noteAccess (directory : Path) (fault : AccessFault) (path : Path) : Logged Unit :=
  let what := if fault = .denied then "Permission denied" else "Error"
  .note .warning .discovery s!"{what} accessing directory {directory}: {fault.message path}"

/-- Takes a file into the result if it is a Ruby source and passes the filter. -/
def Selection.consider (selection : Selection) (file : Path) : Logged (List Path) := do
  if file.isRuby then
    if selection.keeps file then
      .note .debug .discovery s!"Found source file: {file}"
      pure [file]
    else
      .note .debug .discovery s!"Filtered out by custom filter: {file}"
      pure []
  else pure []

/-- The selected files among the entries of a directory and below them, in the order of listing.
The directory is at a place, and `shown` is the path under which the search came to it. -/
def FileSystem.searchIn (fs : FileSystem) (selection : Selection) (place : Place) (links : Nat)
    (permissions : Permissions) (shown : Path) : Directory → Logged (List Path)
  | [] => pure []
  | (name, entry) :: rest =>
    let path := shown.child name
    match h : fs.sight selection.followLinks place links permissions shown name entry with
    | .refused fault => do
      noteAccess shown fault path
      pure []
    | .nothing => fs.searchIn selection place links permissions shown rest
    | .skippedLink => do
      .note .debug .discovery s!"Skipping symlink: {path}"
      fs.searchIn selection place links permissions shown rest
    | .file => do
      let found ← selection.consider path
      let more ← fs.searchIn selection place links permissions shown rest
      pure (found ++ more)
    | .directory inner left entries permissions' => do
      have := FileSystem.sight_directory_lt h
      let found ←
        if isIgnored selection.ignored path then do
          .note .debug .discovery s!"Ignoring directory: {path}"
          pure []
        else if permissions'.list then
          fs.searchIn selection inner left permissions' path entries
        else do
          noteAccess path .denied path
          pure []
      let more ← fs.searchIn selection place links permissions shown rest
      pure (found ++ more)
termination_by entries => (links, sizeOf entries)
decreasing_by
  all_goals simp_wf
  all_goals try (right; omega)
  · rcases this with h | ⟨rfl, h⟩
    · left; exact h
    · right; omega

/-! ## A whole search -/

/-- Why a search could not start. -/
inductive DiscoveryFault where
  | missing (root : Path)
  | notDirectory (root : Path)
  | inaccessible (fault : PathFault)
  deriving DecidableEq, Repr, Inhabited

def DiscoveryFault.message : DiscoveryFault → String
  | .missing root => s!"Root directory does not exist: {root}"
  | .notDirectory root => s!"Root path is not a directory: {root}"
  | .inaccessible fault => fault.message

/-- The lexicographic order of lists of parts; each part is compared by code points. -/
def Path.partsLe : List String → List String → Bool
  | [], _ => true
  | _ :: _, [] => false
  | a :: as, b :: bs => a < b || (a == b && partsLe as bs)

/-- The order in which files are given. -/
def Path.le (a b : Path) : Bool := partsLe a.parts b.parts

/-- The selected files in and below the directory at an absolute path without links. -/
def FileSystem.search (fs : FileSystem) (selection : Selection) (root : Path) (entries : Directory)
    (permissions : Permissions) : Logged (List Path) := do
  .note .info .discovery s!"Starting traversal from: {root}"
  let found ←
    if permissions.list then fs.searchIn selection root.parts linkLimit permissions root entries
    else do
      noteAccess root .denied root
      pure []
  let files := found.mergeSort Path.le
  .note .info .discovery s!"Traversal complete: found {files.length} source file(s) in {root}"
  pure files

/-- Reports a search that could not start. -/
def failDiscovery (fault : DiscoveryFault) : Logged (Except DiscoveryFault (List Path)) := do
  .note .error .discovery fault.message
  pure (.error fault)

/-- The selected files in and below a directory, as absolute paths in the order of their parts. -/
def Workspace.discover (workspace : Workspace) (selection : Selection) (root : Path) :
    Logged (Except DiscoveryFault (List Path)) :=
  match workspace.resolve root with
  | .error fault => pure (.error (.inaccessible fault))
  | .ok root =>
    match workspace.entry? root with
    | .error fault => pure (.error (.inaccessible fault))
    | .ok none => failDiscovery (.missing root)
    | .ok (some (.directory entries permissions)) =>
      .ok <$> workspace.files.search selection root entries permissions
    | .ok (some _) => failDiscovery (.notDirectory root)

end MemoAudit
