import MemoAudit.Text.Blank
import MemoAudit.Text.Cells

/-!
# Lines of a given width

Breaking text into lines that fit a number of cells.  A line is broken between words; a word that is
too wide for any line is either folded, that is cut wherever a line is full, or left alone on its
line and cut short with an ellipsis.

Words own the white space behind them, so that nothing is lost by breaking: `breaks` finds the
positions to break at, and the pieces between them make up the line again.  A piece then gives up
the white space at its end that goes beyond the width.  That excess is counted in characters, not in
cells, so a piece with wide characters may keep white space that does not fit, and is cut short for
it.
-/

namespace MemoAudit.Layout

open Text

/-- The lines of a text, which are what line feeds separate. -/
def splitLines : List Char → List (List Char)
  | [] => [[]]
  | c :: rest =>
    if c = '\n' then [] :: splitLines rest
    else
      match splitLines rest with
      | [] => [[c]]
      | line :: lines => (c :: line) :: lines

/-- The first word of a line, with the white space on both sides of it, and what comes after. -/
def nextWord? (line : List Char) : Option (List Char × List Char) :=
  let lead := line.takeWhile isBlank
  let afterLead := line.dropWhile isBlank
  let body := afterLead.takeWhile (!isBlank ·)
  let afterBody := afterLead.dropWhile (!isBlank ·)
  let trail := afterBody.takeWhile isBlank
  if body = [] then none else some (lead ++ body ++ trail, afterBody.dropWhile isBlank)

theorem append_of_nextWord? {line word rest : List Char} (h : nextWord? line = some (word, rest)) :
    word ++ rest = line := by
  unfold nextWord? at h
  dsimp only at h
  split at h
  · simp at h
  · obtain ⟨rfl, rfl⟩ : _ = word ∧ _ = rest := by simpa using h
    simp only [List.append_assoc, List.takeWhile_append_dropWhile]

theorem word_ne_nil_of_nextWord? {line word rest : List Char}
    (h : nextWord? line = some (word, rest)) : word ≠ [] := by
  unfold nextWord? at h
  dsimp only at h
  split at h
  · simp at h
  · rename_i body
    obtain ⟨rfl, -⟩ : _ = word ∧ _ = rest := by simpa using h
    simp [body]

theorem length_lt_of_nextWord? {line word rest : List Char}
    (h : nextWord? line = some (word, rest)) : rest.length < line.length := by
  have pos := List.length_pos_iff.2 (word_ne_nil_of_nextWord? h)
  rw [← append_of_nextWord? h, List.length_append]
  omega

/-- The words of a line, each with the white space behind it, and the first also with the white
space in front.  A line of white space has no words. -/
def words (line : List Char) : List (List Char) :=
  match h : nextWord? line with
  | none => []
  | some (word, rest) =>
    have : rest.length < line.length := length_lt_of_nextWord? h
    word :: words rest
  termination_by line.length

/-- A word cut into pieces of at most the given number of cells.  The piece being filled is held in
reverse. -/
def chop (width : Nat) (word : List Char) : List (List Char) :=
  let rec go (piece : List Char) (used : Nat) : List Char → List (List Char)
    | [] => [piece.reverse]
    | c :: rest =>
      if width < used + cellWidth c then piece.reverse :: go [c] (cellWidth c) rest
      else go (c :: piece) (used + cellWidth c) rest
  go [] 0 word

/-- What happens to a word that is too wide for any line. -/
inductive Overflow where
  | fold
  | ellipsis
  deriving DecidableEq, Repr, Inhabited

/-- Where pieces start that follow each other from the given position. -/
def startsFrom (start : Nat) : List (List Char) → List Nat
  | [] => []
  | piece :: rest => start :: startsFrom (start + piece.length) rest

/-- The breaks of a line: `start` is where the next word starts, and `used` the cells that the line
has taken up so far. -/
def breaks (width : Nat) (overflow : Overflow) (start used : Nat) : List (List Char) → List Nat
  | [] => []
  | word :: rest =>
    let next := start + word.length
    let bare := cells (trimEnd word)
    if used + bare ≤ width then breaks width overflow next (used + cells word) rest
    else if width < bare then
      match overflow with
      | .fold =>
        let pieces := chop width word
        (startsFrom start pieces).filter (· != 0) ++
          breaks width overflow next (cells (pieces.getLast?.getD [])) rest
      | .ellipsis =>
        [start].filter (· != 0) ++ breaks width overflow next (cells word) rest
    else if used != 0 && start != 0 then
      start :: breaks width overflow next (cells word) rest
    else breaks width overflow next used rest

/-- Cuts a line at positions, which are counted from the given start and in ascending order. -/
def cutAt (start : Nat) (line : List Char) : List Nat → List (List Char)
  | [] => [line]
  | position :: rest =>
    line.take (position - start) :: cutAt position (line.drop (position - start)) rest

/-! ## Fitting a width -/

def spaces (n : Nat) : List Char := List.replicate n ' '

/-- The distance between tab stops. -/
def tabStop : Nat := 8

/-- A line with each tab replaced by one space and as many more as lead to the next tab stop; the
position is the number of cells in front. -/
def expandTabs (position : Nat) : List Char → List Char
  | [] => []
  | c :: rest =>
    if c = '\t' then
      let gap := tabStop - 1 - position % tabStop
      spaces (gap + 1) ++ expandTabs (position + gap + 1) rest
    else c :: expandTabs (position + cellWidth c) rest

/-- A line without as much of the white space at its end as goes beyond the width, in characters. -/
def trimExcess (width : Nat) (line : List Char) : List Char :=
  let blanks := line.length - (trimEnd line).length
  line.take (line.length - min blanks (line.length - width))

/-- Looks for a start of the line that takes up the given number of cells, by halving the interval
of the lengths in question.  Where a wide character stands across the end, a space takes its place.
A character without width can make several starts right, and the halving decides between them. -/
def bisect (total : Nat) (line : List Char) (lower upper : Nat) : List Char :=
  let middle := (lower + upper) / 2
  let start := line.take (middle + 1)
  if cells start = total then start
  else if cells start = total + 1 ∧ (start.getLast?.map cellWidth) = some 2 then
    start.dropLast ++ [' ']
  else if total < cells start then
    if _h : middle < upper then bisect total line lower middle else start
  else
    if _h : lower < middle then bisect total line middle upper else start
  termination_by upper - lower
  decreasing_by all_goals omega

/-- A line cut or filled up with spaces to take up the given number of cells. -/
def fit (total : Nat) (line : List Char) : List Char :=
  if total = 0 then []
  else if cells line ≤ total then line ++ spaces (total - cells line)
  else bisect total line 0 line.length

/-- A line that is too wide, cut short: with an ellipsis, or without a mark where words are
folded. -/
def cutShort (width : Nat) (overflow : Overflow) (line : List Char) : List Char :=
  if width < cells line then
    match overflow with
    | .fold => fit width line
    | .ellipsis => fit (width - 1) line ++ ['…']
  else line

/-! ## Moving to a side -/

/-- Where the text of a line goes: it is left as it is, or filled up on one side or on both. -/
inductive LineAlignment where
  | asIs
  | left
  | right
  | centre
  deriving DecidableEq, Repr, Inhabited

/-- A line filled up on both sides, with the odd character on the right. -/
def centre (fill : Char) (width : Nat) (line : List Char) : List Char :=
  let excess := width - cells line
  List.replicate (excess / 2) fill ++ line ++ List.replicate (excess - excess / 2) fill

/-- A line cut short if it is too wide, and moved to its side. -/
def align (width : Nat) (overflow : Overflow) (alignment : LineAlignment) (line : List Char) :
    List Char :=
  match alignment with
  | .asIs => cutShort width overflow line
  | .left =>
    let short := cutShort width overflow line
    short ++ spaces (width - cells short)
  | .right =>
    let short := cutShort width overflow (trimEnd line)
    spaces (width - cells short) ++ short
  | .centre => centre ' ' width (cutShort width overflow (trimEnd line))

/-- The lines that one line is broken into. -/
def wrapLine (width : Nat) (overflow : Overflow) (alignment : LineAlignment) (line : List Char) :
    List (List Char) :=
  let even := expandTabs 0 line
  (cutAt 0 even (breaks width overflow 0 0 (words even))).map fun piece =>
    align width overflow alignment (trimExcess width piece)

/-- The lines that a text is broken into. -/
def wrap (width : Nat) (overflow : Overflow) (alignment : LineAlignment) (text : List Char) :
    List (List Char) :=
  (splitLines text).flatMap (wrapLine width overflow alignment)

/-! ## Measuring -/

/-- Whether a character ends a line when the width of a text is measured.  These are more than the
line feed, which alone starts a new line on the console. -/
def endsLine (c : Char) : Bool :=
  c == '\n' || c == '\x0b' || c == '\x0c' || c == '\r' || c == '\x1c' || c == '\x1d' ||
    c == '\x1e' || c == '\x85' || c == '\u2028' || c == '\u2029'

/-- The cells of the widest line of a text, where `used` cells of the first line are already
taken. -/
def widest (used : Nat) : List Char → Nat
  | [] => used
  | c :: rest => if endsLine c then max used (widest 0 rest) else widest (used + cellWidth c) rest

end MemoAudit.Layout
