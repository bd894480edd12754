import MemoAudit.Text.Ranges

/-!
# White space

The characters that separate words and that trimming removes: the Unicode property of being a space,
together with the four information separators.
-/

namespace MemoAudit.Text

/-- The code points of white space. -/
def blankRanges : List CodeRange := [
  (0x9, 0xD), (0x1C, 0x20), (0x85, 0x85), (0xA0, 0xA0), (0x1680, 0x1680), (0x2000, 0x200A),
  (0x2028, 0x2029), (0x202F, 0x202F), (0x205F, 0x205F), (0x3000, 0x3000)]

/-- Whether a character is white space. -/
def isBlank (c : Char) : Bool := inRanges blankRanges c

theorem isBlank_of_isWhitespace {c : Char} (h : c.isWhitespace) : isBlank c := by
  simp only [Char.isWhitespace, Bool.or_eq_true, decide_eq_true_eq] at h
  rcases h with ((h | h) | h) | h <;> subst h <;> rfl

/-- Characters without the white space at the front. -/
def trimStart (cs : List Char) : List Char := cs.dropWhile isBlank

/-- Characters without the white space at the back. -/
def trimEnd (cs : List Char) : List Char := (cs.reverse.dropWhile isBlank).reverse

/-- A text without the white space at either end. -/
def trim (s : String) : String := String.ofList (trimEnd (trimStart s.toList))

/-- Whether a character is a space by the Unicode property alone, which the information separators
do not have. -/
def isSpace (c : Char) : Bool := isBlank c && !inRanges [(0x1C, 0x1F)] c

/-- Characters without the spaces at either end. -/
def trimSpace (cs : List Char) : List Char :=
  ((cs.dropWhile isSpace).reverse.dropWhile isSpace).reverse

end MemoAudit.Text
