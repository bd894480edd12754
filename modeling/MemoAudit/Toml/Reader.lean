import MemoAudit.Toml.Value

/-!
# Reading configuration documents

A document is a sequence of statements, one to a line: a value for a key, a header, a comment, or
nothing.  Whatever is not of that form is malformed, and nothing is said about why.

Readers take what they read off the front of a list of characters and return the rest.  Values nest,
so the readers of values are given a depth that bounds the nesting; a document of `n` characters
cannot nest deeper than `n`, which is what `Toml.read` starts with.
-/

namespace MemoAudit.Toml

/-- Characters yet to be read. -/
abbrev Rest := List Char

/-! ## Characters -/

def isSpace (c : Char) : Bool := c == ' ' || c == '\t'

def isSpaceOrNewline (c : Char) : Bool := isSpace c || c == '\n'

/-- The control characters, none of which may stand in a document except tab and line feed. -/
def isControl (c : Char) : Bool := c.toNat < 0x20 || c.toNat == 0x7F

def isBareKeyChar (c : Char) : Bool := c.isAlphanum || c == '-' || c == '_'

def isHexDigit (c : Char) : Bool :=
  c.isDigit || ('a' ≤ c && c ≤ 'f') || ('A' ≤ c && c ≤ 'F')

/-- The value of a digit in any base up to sixteen. -/
def digitValue (c : Char) : Nat :=
  if c.isDigit then c.toNat - '0'.toNat
  else if 'a' ≤ c && c ≤ 'f' then c.toNat - 'a'.toNat + 10
  else c.toNat - 'A'.toNat + 10

/-- The number that digits spell in a base; separators between them do not count. -/
def spell (base : Nat) (digits : List Char) : Nat :=
  (digits.filter (· != '_')).foldl (fun n c => base * n + digitValue c) 0

def skipSpaces (cs : Rest) : Rest := cs.dropWhile isSpace

/-- What follows a given beginning. -/
def after? (start : String) (cs : Rest) : Option Rest :=
  if start.toList.isPrefixOf cs then some (cs.drop start.length) else none

/-- Skips a comment, if there is one, up to the end of its line. -/
def skipComment : Rest → Option Rest
  | '#' :: rest =>
    let comment := rest.takeWhile (· != '\n')
    if comment.any fun c => isControl c && c != '\t' then none
    else some (rest.drop comment.length)
  | cs => some cs

/-- Skips white space, line ends and comments. -/
def skipGaps (fuel : Nat) (cs : Rest) : Option Rest :=
  match fuel with
  | 0 => some cs
  | fuel + 1 =>
    match cs.dropWhile isSpaceOrNewline with
    | '#' :: rest => skipComment ('#' :: rest) >>= skipGaps fuel
    | rest => some rest

/-! ## Texts -/

/-- A character given by its number in base sixteen, with exactly so many digits. -/
def hexChar (count : Nat) (cs : Rest) : Option (Char × Rest) :=
  let digits := cs.take count
  let code := spell 16 digits
  if digits.length = count ∧ digits.all isHexDigit ∧ code.isValidChar then
    some (Char.ofNat code, cs.drop count)
  else none

/-- What the letter after a backslash stands for. -/
def escapeLetter? : Char → Option Char
  | 'b' => some '\x08'
  | 't' => some '\t'
  | 'n' => some '\n'
  | 'f' => some '\x0c'
  | 'r' => some '\r'
  | '"' => some '"'
  | '\\' => some '\\'
  | _ => none

/-- What stands after a backslash; in a text of several lines it may be the end of a line, which is
then skipped together with all white space after it. -/
def readEscape (multiline : Bool) : Rest → Option (List Char × Rest)
  | [] => none
  | c :: rest =>
    if multiline && isSpaceOrNewline c then
      match (c :: rest).dropWhile isSpace with
      | [] => some ([], [])
      | '\n' :: rest => some ([], rest.dropWhile isSpaceOrNewline)
      | _ => none
    else if c = 'u' then (hexChar 4 rest).map fun (d, rest) => ([d], rest)
    else if c = 'U' then (hexChar 8 rest).map fun (d, rest) => ([d], rest)
    else (escapeLetter? c).map fun d => ([d], rest)

/-- The inside of a text between quotation marks. -/
def readBasic (multiline : Bool) : (fuel : Nat) → Rest → Option (List Char × Rest)
  | 0, _ => none
  | _ + 1, [] => none
  | fuel + 1, c :: rest =>
    if c = '"' then
      if !multiline then some ([], rest)
      else
        match rest with
        | '"' :: '"' :: rest => some ([], rest)
        | _ => do
          let (more, rest) ← readBasic multiline fuel rest
          return ('"' :: more, rest)
    else if c = '\\' then do
      let (meant, rest) ← readEscape multiline rest
      let (more, rest) ← readBasic multiline fuel rest
      return (meant ++ more, rest)
    else if isControl c && c != '\t' && !(multiline && c == '\n') then none
    else do
      let (more, rest) ← readBasic multiline fuel rest
      return (c :: more, rest)

/-- The inside of a text between apostrophes. -/
def readLiteral : Rest → Option (List Char × Rest)
  | [] => none
  | '\'' :: rest => some ([], rest)
  | c :: rest =>
    if isControl c && c != '\t' then none
    else do
      let (more, rest) ← readLiteral rest
      return (c :: more, rest)

/-- The inside of a text of several lines between apostrophes. -/
def readLiteralLines : Rest → Option (List Char × Rest)
  | [] => none
  | '\'' :: '\'' :: '\'' :: rest => some ([], rest)
  | c :: rest =>
    if isControl c && c != '\t' && c != '\n' then none
    else do
      let (more, rest) ← readLiteralLines rest
      return (c :: more, rest)

/-- A line end right after the opening of a text of several lines does not count. -/
def dropFirstNewline : Rest → Rest
  | '\n' :: rest => rest
  | cs => cs

/-- Up to two delimiters after the end of a text of several lines belong to the text. -/
def readExtra (delimiter : Char) (text : List Char) (cs : Rest) : List Char × Rest :=
  let extra := (cs.take 2).takeWhile (· == delimiter)
  (text ++ extra, cs.drop extra.length)

/-- A text of one line between quotation marks, which have been seen to open. -/
def readBasicLine (cs : Rest) : Option (String × Rest) := do
  let (text, rest) ← readBasic false (cs.length + 1) cs
  return (String.ofList text, rest)

/-- A text of any kind. -/
def readText? (cs : Rest) : Option (Option (String × Rest)) :=
  match cs with
  | '"' :: '"' :: '"' :: rest =>
    let inside := dropFirstNewline rest
    some do
      let (text, rest) ← readBasic true (inside.length + 1) inside
      let (text, rest) := readExtra '"' text rest
      return (String.ofList text, rest)
  | '"' :: rest => some (readBasicLine rest)
  | '\'' :: '\'' :: '\'' :: rest =>
    some do
      let (text, rest) ← readLiteralLines (dropFirstNewline rest)
      let (text, rest) := readExtra '\'' text rest
      return (String.ofList text, rest)
  | '\'' :: rest =>
    some do
      let (text, rest) ← readLiteral rest
      return (String.ofList text, rest)
  | _ => none

/-! ## Keys -/

/-- One name of a key. -/
def readName (cs : Rest) : Option (String × Rest) :=
  match cs with
  | '"' :: rest => readBasicLine rest
  | '\'' :: rest => do
    let (text, rest) ← readLiteral rest
    return (String.ofList text, rest)
  | _ =>
    let name := cs.takeWhile isBareKeyChar
    if name = [] then none else some (String.ofList name, cs.drop name.length)

/-- A key, whose names are separated by dots. -/
def readKey : (fuel : Nat) → Rest → Option (Key × Rest)
  | 0, _ => none
  | fuel + 1, cs => do
    let (name, rest) ← readName cs
    match skipSpaces rest with
    | '.' :: rest => do
      let (names, rest) ← readKey fuel (skipSpaces rest)
      return (name :: names, rest)
    | rest => return ([name], rest)

/-! ## Numbers and moments -/

/-- The longest run of digits with single separators between them. -/
def digitRun (isDigit : Char → Bool) : Rest → List Char
  | [] => []
  | '_' :: _ => []
  | c :: rest =>
    if isDigit c then
      match rest with
      | '_' :: next :: rest =>
        if isDigit next then c :: '_' :: digitRun isDigit (next :: rest) else [c]
      | rest => c :: digitRun isDigit rest
    else []

/-- A whole number in base sixteen, eight or two. -/
def readRadix? (cs : Rest) : Option (Value × Rest) :=
  let read (base : Nat) (isDigit : Char → Bool) (rest : Rest) : Option (Value × Rest) :=
    let digits := digitRun isDigit rest
    if digits = [] then none
    else some (.integer (spell base digits), rest.drop digits.length)
  match cs with
  | '0' :: 'x' :: rest => read 16 isHexDigit rest
  | '0' :: 'o' :: rest => read 8 (fun c => '0' ≤ c && c ≤ '7') rest
  | '0' :: 'b' :: rest => read 2 (fun c => c == '0' || c == '1') rest
  | _ => none

/-- The digits before the point: a zero alone, or digits that do not start with one. -/
def wholeDigits : Rest → List Char
  | '0' :: _ => ['0']
  | cs => digitRun Char.isDigit cs

/-- A part of a number after a mark; nothing if no digits follow the mark. -/
def markedDigits (mark : List Char) (cs : Rest) : List Char :=
  let digits := digitRun Char.isDigit cs
  if digits = [] then [] else mark ++ digits

def fractionDigits : Rest → List Char
  | '.' :: rest => markedDigits ['.'] rest
  | _ => []

def exponentDigits : Rest → List Char
  | c :: rest =>
    if c = 'e' || c = 'E' then
      match rest with
      | '+' :: rest => markedDigits [c, '+'] rest
      | '-' :: rest => markedDigits [c, '-'] rest
      | rest => markedDigits [c] rest
    else []
  | [] => []

/-- A sign in front of a number. -/
def signOf : Rest → List Char
  | '+' :: _ => ['+']
  | '-' :: _ => ['-']
  | _ => []

/-- A whole number or a fraction in base ten. -/
def readDecimal? (cs : Rest) : Option (Value × Rest) :=
  let sign := signOf cs
  let unsigned := cs.drop sign.length
  let whole := wholeDigits unsigned
  if whole = [] then none
  else
    let rest := unsigned.drop whole.length
    let fraction := fractionDigits rest
    let rest := rest.drop fraction.length
    let exponent := exponentDigits rest
    let rest := rest.drop exponent.length
    if fraction = [] ∧ exponent = [] then
      let n : Int := spell 10 whole
      some (.integer (if sign = ['-'] then -n else n), rest)
    else some (.float (String.ofList (sign ++ whole ++ fraction ++ exponent)), rest)

/-- A fraction that has a name. -/
def readNamedFloat? (cs : Rest) : Option (Value × Rest) :=
  ["inf", "nan", "+inf", "-inf", "+nan", "-nan"].findSome? fun name =>
    (after? name cs).map fun rest => (.float name, rest)

/-- A number of exactly so many digits, up to a limit. -/
def fixedNumber (count most : Nat) (cs : Rest) : Option (Nat × Rest) :=
  let digits := cs.take count
  let n := spell 10 digits
  if digits.length = count ∧ digits.all Char.isDigit ∧ n ≤ most then some (n, cs.drop count)
  else none

def isLeapYear (year : Nat) : Bool := year % 4 == 0 && (year % 100 != 0 || year % 400 == 0)

def daysInMonth (year month : Nat) : Nat :=
  if month = 2 then if isLeapYear year then 29 else 28
  else if [4, 6, 9, 11].contains month then 30
  else 31

/-- What follows a time of day, if the characters start with one. -/
def afterTime? (cs : Rest) : Option Rest := do
  let (_, rest) ← fixedNumber 2 23 cs
  let rest ← after? ":" rest
  let (_, rest) ← fixedNumber 2 59 rest
  let rest ← after? ":" rest
  let (_, rest) ← fixedNumber 2 59 rest
  match rest with
  | '.' :: fraction =>
    let digits := fraction.takeWhile Char.isDigit
    return if digits = [] then rest else fraction.drop digits.length
  | _ => return rest

/-- What follows a distance from universal time, if there is one. -/
def afterOffset (cs : Rest) : Rest :=
  match cs with
  | 'Z' :: rest | 'z' :: rest => rest
  | '+' :: rest | '-' :: rest =>
    (do
      let (_, rest) ← fixedNumber 2 23 rest
      let rest ← after? ":" rest
      let (_, rest) ← fixedNumber 2 59 rest
      return rest : Option Rest).getD cs
  | _ => cs

/-- What follows a date that may go on with a time of day, and whether the date exists; nothing if
the characters do not have the form of a date. -/
def afterDate? (cs : Rest) : Option (Bool × Rest) := do
  let (year, rest) ← fixedNumber 4 9999 cs
  let rest ← after? "-" rest
  let (month, rest) ← fixedNumber 2 12 rest
  let rest ← after? "-" rest
  let (day, rest) ← fixedNumber 2 31 rest
  if month = 0 ∨ day = 0 then none
  let exists' := year != 0 && day ≤ daysInMonth year month
  let withTime : Option Rest :=
    match rest with
    | c :: time => if c == 'T' || c == 't' || c == ' ' then afterTime? time else none
    | [] => none
  match withTime with
  | some rest => return (exists', afterOffset rest)
  | none => return (exists', rest)

/-- The characters that were read, as a moment. -/
def momentUpTo (cs rest : Rest) : Value :=
  .moment (String.ofList (cs.take (cs.length - rest.length)))

/-- A value that does not contain others. -/
def readScalar (cs : Rest) : Option (Value × Rest) :=
  match afterDate? cs with
  | some (exists', rest) => if exists' then some (momentUpTo cs rest, rest) else none
  | none =>
    match afterTime? cs with
    | some rest => some (momentUpTo cs rest, rest)
    | none => (readRadix? cs).or ((readDecimal? cs).or (readNamedFloat? cs))

/-! ## Values -/

mutual

/-- A value of any kind. -/
def readValue : (depth : Nat) → Rest → Option (Value × Rest)
  | 0, _ => none
  | depth + 1, cs =>
    match readText? cs with
    | some result => result.map fun (text, rest) => (.text text, rest)
    | none =>
      match cs with
      | '[' :: rest => do
        let (items, rest) ← readItems depth rest
        return (.array false items, rest)
      | '\x7b' :: rest =>
        match skipSpaces rest with
        | '\x7d' :: rest => some (.table .inline [], rest)
        | rest => do
          let (entries, rest) ← readEntries depth [] rest
          return (.table .inline entries, rest)
      | _ =>
        match after? "true" cs, after? "false" cs with
        | some rest, _ => some (.boolean true, rest)
        | none, some rest => some (.boolean false, rest)
        | none, none => readScalar cs

/-- The items of an array up to its closing bracket. -/
def readItems : (depth : Nat) → Rest → Option (List Value × Rest)
  | 0, _ => none
  | depth + 1, cs => do
    match ← skipGaps cs.length cs with
    | ']' :: rest => return ([], rest)
    | start => do
      let (item, rest) ← readValue depth start
      match ← skipGaps rest.length rest with
      | ']' :: rest => return ([item], rest)
      | ',' :: rest => do
        let (items, rest) ← readItems depth rest
        return (item :: items, rest)
      | _ => none

/-- The entries of a table between braces up to its closing brace, added to those read before. -/
def readEntries : (depth : Nat) → Table → Rest → Option (Table × Rest)
  | 0, _, _ => none
  | depth + 1, entries, cs => do
    let (key, value, rest) ← readPair depth cs
    let entries ← entries.assign value key
    match skipSpaces rest with
    | '\x7d' :: rest => return (entries, rest)
    | ',' :: rest => readEntries depth entries (skipSpaces rest)
    | _ => none

/-- A key and its value. -/
def readPair : (depth : Nat) → Rest → Option (Key × Value × Rest)
  | 0, _ => none
  | depth + 1, cs => do
    let (key, rest) ← readKey (cs.length + 1) cs
    match rest with
    | '=' :: rest => do
      let (value, rest) ← readValue depth (skipSpaces rest)
      return (key, value, rest)
    | _ => none

end

/-! ## Documents -/

/-- A document that is being read. -/
structure Draft where
  table : Table := []
  /-- The key of the last header. -/
  header : Key := []
  /-- The tables that keys with dots have reached since the last header.  They count as named from
  the next header on. -/
  reached : List Key := []
  deriving Inhabited

namespace Draft

/-- Ends the section of a header. -/
def close (draft : Draft) : Option Draft := do
  let table ← draft.reached.foldlM Table.settle draft.table
  return { draft with table, reached := [] }

def declare (draft : Draft) (key : Key) : Option Draft := do
  let draft ← draft.close
  let table ← draft.table.declare key
  return { draft with table, header := key }

def append (draft : Draft) (key : Key) : Option Draft := do
  let draft ← draft.close
  let table ← draft.table.append key
  return { draft with table, header := key }

def assign (draft : Draft) (key : Key) (value : Value) : Option Draft := do
  let table ← Table.reach (Table.assign value · key) draft.table draft.header
  return { draft with table, reached := draft.reached ++ key.steps.map (draft.header ++ ·) }

end Draft

/-- One statement, without the white space and the comment behind it. -/
def readStatement (draft : Draft) (cs : Rest) : Option (Draft × Rest) :=
  match cs with
  | [] => some (draft, [])
  | '\n' :: _ | '#' :: _ => some (draft, cs)
  | '[' :: '[' :: rest => do
    let (key, rest) ← readKey (rest.length + 1) (skipSpaces rest)
    let rest ← after? "]]" rest
    return (← draft.append key, rest)
  | '[' :: rest => do
    let (key, rest) ← readKey (rest.length + 1) (skipSpaces rest)
    let rest ← after? "]" rest
    return (← draft.declare key, rest)
  | _ => do
    let (key, value, rest) ← readPair (2 * cs.length + 2) cs
    return (← draft.assign key value, rest)

/-- All statements. -/
def readStatements : (fuel : Nat) → Draft → Rest → Option Table
  | 0, _, _ => none
  | fuel + 1, draft, cs => do
    let (draft, rest) ← readStatement draft (skipSpaces cs)
    match ← skipComment (skipSpaces rest) with
    | [] => return draft.table
    | '\n' :: rest => readStatements fuel draft rest
    | _ => none

/-- Line ends written with a carriage return count as plain ones. -/
def plainLineEnds : List Char → List Char
  | '\r' :: '\n' :: rest => '\n' :: plainLineEnds rest
  | c :: rest => c :: plainLineEnds rest
  | [] => []

/-- The table that a document describes; nothing if the document is malformed. -/
def read (document : String) : Option Table :=
  let cs := plainLineEnds document.toList
  readStatements (cs.length + 1) {} cs

end MemoAudit.Toml
