/-!
# Similar words

Two words are similar if they have much in common.  What they have in common is found block by
block: the longest run of characters that stands in both, then the same on the left of it and on the
right (`commonCount`).  The share of these characters among all characters of both words is their
*similarity*; it is compared without rounding.
-/

namespace MemoAudit.Text

/-- How many characters two texts start with alike. -/
def commonStart : List Char → List Char → Nat
  | a :: as, b :: bs => if a = b then commonStart as bs + 1 else 0
  | _, _ => 0

/-- A run of characters that stands in two texts, from a position on in each of them. -/
structure CommonRun where
  first : Nat
  second : Nat
  length : Nat
  deriving DecidableEq, Repr, Inhabited

/-- The longer of two runs; of two that are equally long, the one that was found before. -/
def CommonRun.longer (found other : CommonRun) : CommonRun :=
  if found.length < other.length then other else found

/-- The longest run that starts in the second text; `position` counts from the start of that
text. -/
def longestFrom (first : Nat) (as : List Char) (found : CommonRun) (position : Nat) :
    List Char → CommonRun
  | [] => found
  | b :: bs =>
    longestFrom first as (found.longer ⟨first, position, commonStart as (b :: bs)⟩) (position + 1)
      bs

/-- The longest run that two texts have in common: the first in the one text, and there the first in
the other. -/
def longestRun (bs : List Char) (found : CommonRun) (position : Nat) : List Char → CommonRun
  | [] => found
  | a :: as => longestRun bs (longestFrom position (a :: as) found 0 bs) (position + 1) as

/-- How many characters two texts have in common, block by block. -/
def commonCount (as bs : List Char) : Nat :=
  match longestRun bs ⟨0, 0, 0⟩ 0 as with
  | ⟨first, second, length⟩ =>
    if _h : 0 < length ∧ first + length ≤ as.length then
      commonCount (as.take first) (bs.take second) + length +
        commonCount (as.drop (first + length)) (bs.drop (second + length))
    else 0
  termination_by as.length
  decreasing_by
    · simp only [List.length_take]; omega
    · simp only [List.length_drop]; omega

/-- A word beside another one, with the characters that they have in common and those that they have
together. -/
structure Likeness where
  word : String
  common : Nat
  total : Nat
  deriving DecidableEq, Repr, Inhabited

namespace Likeness

def of (given word : String) : Likeness :=
  ⟨word, commonCount word.toList given.toList, word.length + given.length⟩

/-- Whether the similarity is at least three fifths. -/
def isClose (likeness : Likeness) : Bool := 3 * likeness.total ≤ 10 * likeness.common

/-- Whether a word comes before another one in a list of the most similar words. -/
def precedes (a b : Likeness) : Bool :=
  b.common * a.total < a.common * b.total ||
    (a.common * b.total == b.common * a.total && b.word ≤ a.word)

end Likeness

/-- How many similar words are offered at most. -/
def offerLimit : Nat := 3

/-- The words that are similar to a given one, the most similar first. -/
def similarWords (given : String) (words : List String) : List String :=
  ((((words.map (Likeness.of given)).filter Likeness.isClose).mergeSort Likeness.precedes).take
    offerLimit).map Likeness.word

end MemoAudit.Text
