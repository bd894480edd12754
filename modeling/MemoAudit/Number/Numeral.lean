import MemoAudit.Number.Binary64
import MemoAudit.Text.Blank

/-!
# Numerals

Two readers.  `Numeral.whole` reads a whole number that stands in a text: white space around it, a
plus sign, zeros in front, underscores between digits and zeros after a point are allowed, and what
is left must be a plain numeral that is not too long.  `Numeral.decimal?` reads a number with a
point or an exponent.
-/

namespace MemoAudit.Numeral

/-- The number that a run of digits spells in base ten. -/
def ofDigits (cs : List Char) : Nat :=
  cs.foldl (fun n c => 10 * n + (c.toNat - '0'.toNat)) 0

/-! ## Whole numbers in texts -/

/-- Why a text is not read as a whole number. -/
inductive Fault where
  | unreadable
  | tooLong
  deriving DecidableEq, Repr, Inhabited

/-- How many characters a plain numeral may have, a minus sign included. -/
def lengthLimit : Nat := 4300

/-- Whether a character may stand among the zeros in front of a number. -/
def isPadding (c : Char) : Bool := c == '0' || c == '_'

/-- Drops zeros in front of a number, however underscores group them; if no other digit follows, the
last character of the padding stays. -/
def dropPadding (cs : List Char) : Option (List Char) :=
  let padding := cs.takeWhile isPadding
  match cs, cs.dropWhile isPadding with
  | '0' :: _, [] => some (padding.drop (padding.length - 1))
  | '0' :: _, '.' :: rest => some (padding.drop (padding.length - 1) ++ '.' :: rest)
  | '0' :: _, c :: rest => if c.isDigit then some (c :: rest) else none
  | c :: _, _ => if c.isDigit || c == '-' then some cs else none
  | [], _ => none

/-- Drops a plus sign; a minus sign may not follow it. -/
def dropPlus : List Char → Option (List Char)
  | '+' :: '-' :: _ => none
  | '+' :: rest => some rest
  | cs => some cs

/-- Drops a point that is followed by zeros alone, of which there is at least one. -/
def dropZeroFraction (cs : List Char) : List Char :=
  match cs.dropWhile (· != '.') with
  | '.' :: '0' :: zeros => if zeros.all (· == '0') then cs.takeWhile (· != '.') else cs
  | _ => cs

/-- Whether every underscore stands alone and between two other characters. -/
def underscoresApart (cs : List Char) : Bool :=
  cs.head? != some '_' && cs.getLast? != some '_' && !(cs.zip cs.tail).contains ('_', '_')

/-- Drops underscores that group digits. -/
def dropUnderscores (cs : List Char) : List Char :=
  if underscoresApart cs then cs.filter (· != '_') else cs

/-- Reads a numeral that has a minus sign at most, and no zero in front of other digits. -/
def plain (cs : List Char) : Except Fault Int :=
  let negative := cs.head? == some '-'
  let unsigned := if negative then cs.drop 1 else cs
  let digits := unsigned.takeWhile Char.isDigit
  if unsigned = ['0'] then .ok 0
  else if digits = [] ∨ digits.head? = some '0' then .error .unreadable
  else if lengthLimit < digits.length + (if negative then 1 else 0) then .error .tooLong
  else if digits.length = unsigned.length then
    .ok (if negative then -(ofDigits digits : Int) else ofDigits digits)
  else .error .unreadable

/-- The whole number that a text spells. -/
def whole (s : String) : Except Fault Int :=
  match dropPlus (Text.trimSpace s.toList) >>= dropPadding with
  | none => .error .unreadable
  | some cs => plain (dropUnderscores (dropZeroFraction cs))

/-! ## Decimals -/

/-- Reads the exponent of a decimal, with its mark; there may be none. -/
def exponent? : List Char → Option Int
  | [] => some 0
  | mark :: rest =>
    let negative := rest.head? == some '-'
    let digits := if negative || rest.head? == some '+' then rest.drop 1 else rest
    if (mark == 'e' || mark == 'E') && digits != [] && digits.all Char.isDigit then
      some (if negative then -(ofDigits digits : Int) else ofDigits digits)
    else none

/-- Reads a number: a minus sign if any, digits, and possibly a point with digits and an
exponent. -/
def decimal? (cs : List Char) : Option Decimal :=
  let negative := cs.head? == some '-'
  let unsigned := if negative then cs.drop 1 else cs
  let before := unsigned.takeWhile Char.isDigit
  let rest := unsigned.dropWhile Char.isDigit
  let after := if rest.head? == some '.' then (rest.drop 1).takeWhile Char.isDigit else []
  let rest := if rest.head? == some '.' then (rest.drop 1).dropWhile Char.isDigit else rest
  (exponent? rest).map fun exponent =>
    { negative, digits := ofDigits (before ++ after), exponent := exponent - after.length }

end MemoAudit.Numeral
