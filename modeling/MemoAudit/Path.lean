/-!
# Paths

A path is the run of slashes that it starts with, if any, and its parts.  Reading a path from text
(`Path.ofString`) drops empty parts and parts that are a single dot, so that a path has one
spelling; two dots are kept, because what they denote depends on the directory in front of them.

`Path.normalize` resolves two dots against the parts before them, which is what they denote as long
as no symbolic link is involved.  `Path.shorten` names a path relative to a working directory where
that is possible without two dots.
-/

namespace MemoAudit

/-- How a path starts.  Exactly two slashes are a root of their own; more than two count as one. -/
inductive Anchor where
  | relative
  | root
  | doubleRoot
  deriving DecidableEq, Repr, Inhabited

/-- The slashes that an anchor is written with. -/
def Anchor.text : Anchor → String
  | .relative => ""
  | .root => "/"
  | .doubleRoot => "//"

structure Path where
  anchor : Anchor
  parts : List String
  deriving DecidableEq, Repr, Inhabited

namespace Path

/-- The pieces of a character sequence between slashes. -/
def splitSlashes : List Char → List (List Char)
  | [] => [[]]
  | c :: rest =>
    if c = '/' then [] :: splitSlashes rest
    else
      match splitSlashes rest with
      | [] => [[c]]
      | piece :: pieces => (c :: piece) :: pieces

/-- The pieces of a text between slashes, the empty ones included. -/
def pieces (text : String) : List String := (splitSlashes text.toList).map String.ofList

/-- Whether a text starts at the root. -/
def startsAtRoot (text : String) : Bool := text.toList.head? == some '/'

/-- A text continued by another, with a slash between them; one that starts at the root replaces
what is in front. -/
def joinTexts (front rest : String) : String :=
  if startsAtRoot rest then rest
  else if front.toList.getLast? = some '/' then front ++ rest
  else front ++ "/" ++ rest

/-- Whether a piece between slashes is a part of the path. -/
def isPart (piece : List Char) : Bool := piece != [] && piece != ['.']

/-- The parts that a character sequence names. -/
def partsOf (cs : List Char) : List String :=
  ((splitSlashes cs).filter isPart).map String.ofList

/-- The anchor of a path that starts with this many slashes. -/
def anchorOf (slashes : Nat) : Anchor :=
  if slashes = 0 then .relative else if slashes = 2 then .doubleRoot else .root

/-- Reads a path from text. -/
def ofString (s : String) : Path :=
  { anchor := anchorOf (s.toList.takeWhile (· == '/')).length
    parts := partsOf s.toList }

/-- The text of a path; the path without parts is a single dot. -/
def text (path : Path) : String :=
  match path.anchor, path.parts with
  | .relative, [] => "."
  | anchor, parts => anchor.text ++ "/".intercalate parts

instance : ToString Path := ⟨text⟩

def isAbsolute (path : Path) : Bool := path.anchor != .relative

/-- The root directory. -/
def rootDirectory : Path := ⟨.root, []⟩

/-- The last part, or the empty text if there is none. -/
def name (path : Path) : String := path.parts.getLast?.getD ""

/-- The path of an entry in the directory that a path names. -/
def child (path : Path) (name : String) : Path :=
  { path with parts := path.parts ++ [name] }

/-- A path read from within a directory. -/
def within (path directory : Path) : Path :=
  if path.isAbsolute then path else { directory with parts := directory.parts ++ path.parts }

/-- The directory that holds the last part. -/
def parent (path : Path) : Path :=
  { path with parts := path.parts.dropLast }

/-- The directory itself and each one above it, nearest first. -/
def selfAndParents (path : Path) : List Path :=
  (List.range (path.parts.length + 1)).map fun above =>
    { path with parts := path.parts.take (path.parts.length - above) }

/-! ## Suffixes -/

/-- The characters from the last dot on; there must be a character before the dot and one after. -/
def suffixOf (name : List Char) : List Char :=
  let after := name.reverse.takeWhile (· != '.')
  let before := (name.reverse.dropWhile (· != '.')).drop 1
  if after = [] ∨ before = [] then [] else '.' :: after.reverse

/-- The suffix of the last part, with its dot, or the empty text. -/
def suffix (path : Path) : String := String.ofList (suffixOf path.name.toList)

/-- A letter in lower case, as far as the result is an ASCII letter: besides the capitals of ASCII,
only the Kelvin sign has one. -/
def lowerChar (c : Char) : Char :=
  if c = Char.ofNat 0x212A then 'k' else c.toLower

/-- The suffixes of Ruby sources. -/
def rubySuffixes : List String := [".rb", ".rake", ".gemspec", ".ru"]

/-- Whether the path has the suffix of a Ruby source, in any case. -/
def isRuby (path : Path) : Bool :=
  rubySuffixes.contains (String.ofList (path.suffix.toList.map lowerChar))

/-! ## Resolving dots -/

/-- One step of resolving parts against those before them, which are held last first: two dots take
the last part away, and stay at the root when there is none. -/
def resolveStep (before : List String) (part : String) : List String :=
  if part = ".." then before.drop 1 else part :: before

/-- Absolute parts without two dots. -/
def resolveParts (parts : List String) : List String :=
  (parts.foldl resolveStep []).reverse

/-- The path without two dots, read from within a directory. -/
def normalize (path directory : Path) : Path :=
  ⟨.root, resolveParts (path.within directory).parts⟩

/-- The spelling of the directory above a path, where a relative path may lead above its start. -/
def above (path : Path) : Path :=
  match path.anchor, path.parts.getLast? with
  | .relative, none | .relative, some ".." => path.child ".."
  | _, _ => path.parent

/-- Whether a path can be handed to the system: its text has no null character. -/
def isPresentable (path : Path) : Bool := path.parts.all fun part => !part.toList.contains '\x00'

/-- What is left of a path below a directory, if it lies there. -/
def relativeTo? (path directory : Path) : Option Path :=
  if path.anchor = directory.anchor ∧ directory.parts.isPrefixOf path.parts then
    some ⟨.relative, path.parts.drop directory.parts.length⟩
  else none

/-- How a path is shown to someone in the working directory: the part below that directory if the
resolved path lies there, and the path as it was given otherwise. -/
def shorten (path directory resolved : Path) : Path :=
  (resolved.relativeTo? directory).getD path

end Path

end MemoAudit
