import MemoAudit.Text.Lowercase

/-!
# Colours

A colour is written as a name of the palette, as `#` and six hexadecimal digits, as `color(n)` with
a number of the palette, or as `rgb(r,g,b)` with three components.  Case does not matter.

Only the spelling of a colour is kept: two tags are alike if they spell the same colour alike.
-/

namespace MemoAudit.Report

/-- The names of the palette, with grey spelt so; `gray` is the same word. -/
def paletteNames : List String := [
  "black", "red", "green", "yellow", "blue", "magenta", "cyan", "white", "bright_black",
  "bright_red", "bright_green", "bright_yellow", "bright_blue", "bright_magenta", "bright_cyan",
  "bright_white", "grey0", "navy_blue", "dark_blue", "blue3", "blue1", "dark_green",
  "deep_sky_blue4", "dodger_blue3", "dodger_blue2", "green4", "spring_green4", "turquoise4",
  "deep_sky_blue3", "dodger_blue1", "green3", "spring_green3", "dark_cyan", "light_sea_green",
  "deep_sky_blue2", "deep_sky_blue1", "spring_green2", "cyan3", "dark_turquoise", "turquoise2",
  "green1", "spring_green1", "medium_spring_green", "cyan2", "cyan1", "dark_red", "deep_pink4",
  "purple4", "purple3", "blue_violet", "orange4", "grey37", "medium_purple4", "slate_blue3",
  "royal_blue1", "chartreuse4", "dark_sea_green4", "pale_turquoise4", "steel_blue", "steel_blue3",
  "cornflower_blue", "chartreuse3", "cadet_blue", "sky_blue3", "steel_blue1", "pale_green3",
  "sea_green3", "aquamarine3", "medium_turquoise", "chartreuse2", "sea_green2", "sea_green1",
  "aquamarine1", "dark_slate_gray2", "dark_magenta", "dark_violet", "purple", "light_pink4",
  "plum4", "medium_purple3", "slate_blue1", "yellow4", "wheat4", "grey53", "light_slate_grey",
  "light_slate_gray", "medium_purple", "light_slate_blue", "dark_olive_green3", "dark_sea_green",
  "light_sky_blue3", "sky_blue2", "dark_sea_green3", "dark_slate_gray3", "sky_blue1",
  "chartreuse1", "light_green", "pale_green1", "dark_slate_gray1", "red3", "medium_violet_red",
  "magenta3", "dark_orange3", "indian_red", "hot_pink3", "medium_orchid3", "medium_orchid",
  "medium_purple2", "dark_goldenrod", "light_salmon3", "rosy_brown", "grey63", "medium_purple1",
  "gold3", "dark_khaki", "navajo_white3", "grey69", "light_steel_blue3", "light_steel_blue",
  "yellow3", "dark_sea_green2", "light_cyan3", "light_sky_blue1", "green_yellow",
  "dark_olive_green2", "dark_sea_green1", "pale_turquoise1", "deep_pink3", "magenta2", "hot_pink2",
  "orchid", "medium_orchid1", "orange3", "light_pink3", "pink3", "plum3", "violet",
  "light_goldenrod3", "tan", "misty_rose3", "thistle3", "plum2", "khaki3", "light_goldenrod2",
  "light_yellow3", "grey84", "light_steel_blue1", "yellow2", "dark_olive_green1", "honeydew2",
  "light_cyan1", "red1", "deep_pink2", "deep_pink1", "magenta1", "orange_red1", "indian_red1",
  "hot_pink", "dark_orange", "salmon1", "light_coral", "pale_violet_red1", "orchid2", "orchid1",
  "orange1", "sandy_brown", "light_salmon1", "light_pink1", "pink1", "plum1", "gold1",
  "navajo_white1", "misty_rose1", "thistle1", "yellow1", "light_goldenrod1", "khaki1", "wheat1",
  "cornsilk1", "grey100", "grey3", "grey7", "grey11", "grey15", "grey19", "grey23", "grey27",
  "grey30", "grey35", "grey39", "grey42", "grey46", "grey50", "grey54", "grey58", "grey62",
  "grey66", "grey70", "grey74", "grey78", "grey82", "grey85", "grey89", "grey93"]

/-- Why a word is not a colour.  A component that is empty is no plain misspelling: reading it as a
number fails. -/
inductive ColourFault where
  | unknown
  | emptyComponent
  deriving DecidableEq, Repr, Inhabited

/-- Whether a word in lower case is a name of the palette. -/
def isPaletteName (word : List Char) : Bool :=
  let spelling :=
    match word with
    | 'g' :: 'r' :: 'a' :: 'y' :: rest => 'g' :: 'r' :: 'e' :: 'y' :: rest
    | _ => word
  paletteNames.contains (String.ofList spelling)

/-- What stands in brackets after a word, if the text has this form and nothing follows. -/
def inBrackets? (word : List Char) (text : List Char) : Option (List Char) :=
  if word.isPrefixOf text then
    match text.drop word.length with
    | '(' :: rest =>
      match rest.reverse with
      | ')' :: inner => some inner.reverse
      | _ => none
    | _ => none
  else none

/-- The number that decimal digits stand for. -/
def decimal (digits : List Char) : Nat :=
  digits.foldl (fun total digit => 10 * total + (digit.toNat - '0'.toNat)) 0

def isHexDigit (c : Char) : Bool := c.isDigit || ('a' ≤ c && c ≤ 'f')

/-- The parts of a text between commas. -/
def splitCommas : List Char → List (List Char)
  | [] => [[]]
  | c :: rest =>
    if c = ',' then [] :: splitCommas rest
    else
      match splitCommas rest with
      | [] => [[c]]
      | part :: parts => (c :: part) :: parts

/-- A colour given by its components. -/
def readComponents (inner : List Char) : Except ColourFault Unit :=
  let parts := splitCommas inner
  if inner.isEmpty || parts.length != 3 || parts.any (·.any (!·.isDigit)) then .error .unknown
  else if parts.any List.isEmpty then .error .emptyComponent
  else if parts.all (decimal · ≤ 255) then .ok ()
  else .error .unknown

/-- A colour given by its number. -/
def isColourNumber (inner : List Char) : Bool :=
  1 ≤ inner.length && inner.length ≤ 3 && inner.all Char.isDigit && decimal inner ≤ 255

/-- The spelling of the colour that a word names, in lower case. -/
def colour (word : List Char) : Except ColourFault (List Char) :=
  let small := Text.lower word
  if small = "default".toList || isPaletteName small then .ok small
  else
    match small with
    | '#' :: digits =>
      if digits.length = 6 && digits.all isHexDigit then .ok small else .error .unknown
    | _ =>
      match inBrackets? "color".toList small, inBrackets? "rgb".toList small with
      | some inner, _ => if isColourNumber inner then .ok small else .error .unknown
      | none, some inner => (readComponents inner).map fun _ => small
      | none, none => .error .unknown

end MemoAudit.Report
