import MemoAudit.Text.Blank
import MemoAudit.Text.Quoted

/-!
# Actions of tags

A tag whose name starts with `@` carries an action in its parameters: the name of a handler, with
arguments in brackets behind it, or a value alone.  The arguments are a literal value: numbers,
texts, tuples, sets and dictionaries.  An action has no effect on what is shown, but one that cannot
be read is a fault of the markup.

The parameters are first cut into tokens, which finds texts that are not closed and brackets that do
not match (`Action.tokens`).  A second pass goes through the tokens with the stack of open brackets
and alternates between places for an operand and places for an operator (`Action.step`).  A bracket
that is never closed comes to light only if this pass gets to the end.
-/

namespace MemoAudit.Report

/-- Why the parameters of an action cannot be read. -/
inductive ActionFault where
  | nullCharacter
  | unterminated (line : Nat)
  | unterminatedBlock (line : Nat)
  | unclosed (bracket : Char)
  | unmatched (bracket : Char)
  | mismatched (closing opening : Char)
  | badNumber (kind : String)
  | leadingZeros
  | continuation
  | missingComma
  | assignment
  | assignmentToLiteral
  | missingValue
  | invalid
  | notLiteral
  deriving DecidableEq, Repr, Inhabited

def ActionFault.message : ActionFault → String
  | .nullCharacter => "source code string cannot contain null bytes"
  | .unterminated line => s!"unterminated string literal (detected at line {line})"
  | .unterminatedBlock line =>
    s!"unterminated triple-quoted string literal (detected at line {line})"
  | .unclosed bracket => s!"'{bracket}' was never closed"
  | .unmatched bracket => s!"unmatched '{bracket}'"
  | .mismatched closing opening =>
    s!"closing parenthesis '{closing}' does not match opening parenthesis '{opening}'"
  | .badNumber kind => s!"invalid {kind} literal"
  | .leadingZeros =>
    "leading zeros in decimal integer literals are not permitted; " ++
      "use an 0o prefix for octal integers"
  | .continuation => "unexpected character after line continuation character"
  | .missingComma => "invalid syntax. Perhaps you forgot a comma?"
  | .assignment => "invalid syntax. Maybe you meant '==' or ':=' instead of '='?"
  | .assignmentToLiteral => "cannot assign to literal here. Maybe you meant '==' instead of '='?"
  | .missingValue => "expression expected after dictionary key and ':'"
  | .invalid => "invalid syntax"
  | .notLiteral => "malformed node or string on line 1"

namespace Action

/-! ## Tokens -/

inductive Token where
  | number (imaginary : Bool)
  | text
  | name (word : List Char)
  | opening (bracket : Char)
  | closing (bracket : Char)
  | comma
  | colon
  | dot
  | equals
  | ellipsis
  | operator (sign : Char)
  | newline
  | stray
  deriving DecidableEq, Repr, Inhabited

/-- Whether a character may stand in a name.  Beyond ASCII every character that is shown may. -/
def isNameChar (c : Char) : Bool :=
  c.isAlphanum || c == '_' || (0x80 ≤ c.toNat && !Text.isBlank c && Text.isPrintable c)

/-- The rest of a text behind its closing quote, and the line that the quote is on.  A text in
single quotes ends with its line, one in triple quotes goes on. -/
def afterQuote (quote : Char) (triple : Bool) (line : Nat) :
    List Char → Except ActionFault (List Char × Nat)
  | [] => .error (if triple then .unterminatedBlock line else .unterminated line)
  | '\\' :: c :: rest => afterQuote quote triple (if c = '\n' then line + 1 else line) rest
  | c :: rest =>
    if c = quote then
      if triple then
        match rest with
        | d :: e :: after =>
          if d = quote && e = quote then .ok (after, line) else afterQuote quote triple line rest
        | _ => afterQuote quote triple line rest
      else .ok (rest, line)
    else if c = '\n' then
      if triple then afterQuote quote triple (line + 1) rest else .error (.unterminated line)
    else afterQuote quote triple line rest

/-- Whether digits are grouped by single underscores, if at all. -/
def groupedDigits (isDigit : Char → Bool) (run : List Char) : Bool :=
  let groups := run.splitOnP (· == '_')
  groups.all fun group => !group.isEmpty && group.all isDigit

/-- The exponent of a number, if there is one, and what follows. -/
def afterExponent (cs : List Char) : Option (List Char) :=
  let digits (rest : List Char) : Option (List Char) :=
    let run := rest.takeWhile fun c => c.isDigit || c == '_'
    if groupedDigits Char.isDigit run then some (rest.drop run.length) else none
  match cs with
  | c :: d :: rest =>
    if c = 'e' || c = 'E' then
      if d = '+' || d = '-' then digits rest else digits (d :: rest)
    else none
  | _ => none

/-- A number in a base other than ten, of which the mark has been read. -/
def basedNumber (kind : String) (isDigit : Char → Bool) (cs : List Char) :
    Except ActionFault (Token × List Char) :=
  let run := cs.takeWhile isNameChar
  if groupedDigits isDigit run || (run.head? = some '_' && groupedDigits isDigit run.tail) then
    .ok (.number false, cs.drop run.length)
  else .error (.badNumber kind)

/-- A decimal number. -/
def decimalNumber (cs : List Char) : Except ActionFault (Token × List Char) :=
  let whole := cs.takeWhile fun c => c.isDigit || c == '_'
  let afterWhole := cs.drop whole.length
  let (fraction, afterFraction) :=
    match afterWhole with
    | '.' :: rest =>
      let run := rest.takeWhile fun (c : Char) => c.isDigit || c == '_'
      (some run, rest.drop run.length)
    | _ => (none, afterWhole)
  let exponent := afterExponent afterFraction
  let afterNumber := exponent.getD afterFraction
  let isImaginary := (afterNumber.head?.map fun c => c == 'j' || c == 'J').getD false
  let after := if isImaginary then afterNumber.tail else afterNumber
  let wellGrouped (run : List Char) := run.isEmpty || groupedDigits Char.isDigit run
  if !wellGrouped whole || !wellGrouped (fraction.getD []) ||
      (after.head?.map isNameChar).getD false then .error (.badNumber "decimal")
  else if whole.head? = some '0' && whole.any (fun c => c != '0' && c != '_') &&
      fraction.isNone && exponent.isNone && !isImaginary then
    .error .leadingZeros
  else .ok (.number isImaginary, after)

/-- A number, and what follows it. -/
def number : List Char → Except ActionFault (Token × List Char)
  | '0' :: mark :: rest =>
    if mark = 'x' || mark = 'X' then
      basedNumber "hexadecimal" (fun c => c.isDigit || "abcdefABCDEF".contains c) rest
    else if mark = 'o' || mark = 'O' then basedNumber "octal" ("01234567".contains ·) rest
    else if mark = 'b' || mark = 'B' then basedNumber "binary" ("01".contains ·) rest
    else decimalNumber ('0' :: mark :: rest)
  | cs => decimalNumber cs

/-- The words that may stand directly in front of a quote. -/
def quoteMarks : List String := ["r", "u", "b", "br", "rb"]

/-- The signs that make up operators. -/
def operatorSigns : String := "+-*/%&|^~<>@!="

/-- The bracket that closes an opening one. -/
def closingOf (bracket : Char) : Char :=
  if bracket = '(' then ')' else if bracket = '[' then ']' else '}'

/-- The token at the start of a text that does not start with a blank, what follows it, and the line
there. -/
def token (line : Nat) (c : Char) (rest : List Char) :
    Except ActionFault (Token × List Char × Nat) :=
  let quotedText (quote : Char) (after : List Char) :
      Except ActionFault (Token × List Char × Nat) :=
    let triple := after.take 2 == [quote, quote]
    (afterQuote quote triple line (if triple then after.drop 2 else after)).map fun found =>
      (.text, found)
  if c = '"' || c = '\'' then quotedText c rest
  else if c.isDigit || (c = '.' && (rest.head?.map Char.isDigit).getD false) then
    (number (c :: rest)).map fun (found, after) => (found, after, line)
  else if isNameChar c then
    let word := c :: rest.takeWhile isNameChar
    let after := rest.dropWhile isNameChar
    match after with
    | quote :: inside =>
      if (quote = '"' || quote = '\'') &&
          quoteMarks.contains (String.ofList (word.map Char.toLower)) then
        quotedText quote inside
      else .ok (.name word, after, line)
    | [] => .ok (.name word, after, line)
  else
    .ok <| match c with
      | '(' | '[' | '{' => (.opening c, rest, line)
      | ')' | ']' | '}' => (.closing c, rest, line)
      | ',' => (.comma, rest, line)
      | ':' => if rest.head? = some '=' then (.stray, rest.tail, line) else (.colon, rest, line)
      | '.' =>
        if rest.take 2 = ['.', '.'] then (.ellipsis, rest.drop 2, line) else (.dot, rest, line)
      | '=' =>
        if rest.head? = some '=' then (.operator '<', rest.tail, line) else (.equals, rest, line)
      | _ =>
        if operatorSigns.contains c then
          let more := rest.takeWhile fun d => (d == c && "*/<>".contains c) || d == '='
          (if c = '!' && more.isEmpty then .stray
            else .operator (if more.isEmpty then c else '<'), rest.drop more.length, line)
        else (.stray, rest, line)

/-- The tokens of a text, where `stack` holds the brackets that are open, innermost first, and the
fault that the text ends with, if it has one there.  The fuel bounds the number of characters. -/
def tokens (fuel line : Nat) (stack : List Char) (cs : List Char) :
    Except ActionFault (List Token × Option ActionFault) :=
  let before (found : Token) (rest : List Token × Option ActionFault) := (found :: rest.1, rest.2)
  match fuel, cs with
  | 0, _ | _, [] => .ok ([], stack.head?.map ActionFault.unclosed)
  | fuel + 1, c :: rest =>
    if c = ' ' || c = '\t' || c = '\x0c' then tokens fuel line stack rest
    else if c = '\n' || c = '\r' then
      if stack = [] then (tokens fuel (line + 1) stack rest).map (before .newline)
      else tokens fuel (line + 1) stack rest
    else if c = '#' then tokens fuel line stack (rest.dropWhile (· != '\n'))
    else if c = '\\' then
      match rest with
      | '\n' :: after => tokens fuel (line + 1) stack after
      | _ => .ok ([], some .continuation)
    else do
      let (found, after, line) ← token line c rest
      match found, stack with
      | .opening bracket, _ => (tokens fuel line (bracket :: stack) after).map (before found)
      | .closing bracket, [] => .error (.unmatched bracket)
      | .closing bracket, opened :: stack =>
        if closingOf opened = bracket then (tokens fuel line stack after).map (before found)
        else .error (.mismatched bracket opened)
      | _, _ => (tokens fuel line stack after).map (before found)

/-! ## Order of tokens -/

/-- How far the tokens of a value have been read. -/
structure Progress where
  /-- The open brackets, innermost first, each with whether a colon has been seen in its entry. -/
  stack : List (Char × Bool) := []
  /-- Whether an operand comes next. -/
  wanted : Bool := true
  /-- Whether a bracket may close, or the text end, in place of the operand. -/
  closable : Bool := false
  previous : Option Token := none
  /-- Whether all so far is a literal value. -/
  literal : Bool := true
  deriving Inhabited

/-- Words that are operators between two operands. -/
def betweenWords : List String := ["and", "or", "in", "is", "if", "else", "for", "not"]

/-- Words that start no operand. -/
def keywords : List String :=
  ["as", "assert", "async", "break", "class", "continue", "def", "del", "elif", "except", "finally",
    "from", "global", "import", "nonlocal", "pass", "raise", "return", "try", "while", "with",
    "yield"] ++ betweenWords

def constants : List String := ["None", "True", "False"]

/-- Why the tokens cannot be read further.  Some faults are told only after the operand that
follows, so that a fault at the end of the text is met before. -/
structure Halt where
  fault : ActionFault
  readsOn : Bool := false

/-- The fault of tokens that have no better explanation. -/
def Halt.invalid : Halt := { fault := .invalid }

/-- Progress after an operand, which is literal or not. -/
def Progress.operand (progress : Progress) (found : Token) (literal : Bool) : Progress :=
  { progress with
    wanted := false, closable := false, previous := some found,
    literal := progress.literal && literal }

/-- A place for an operand. -/
def Progress.stepOperand (progress : Progress) (found : Token) : Except Halt Progress :=
  let afterSign := match progress.previous with
    | some (.operator _) => true
    | _ => false
  match found with
  | .number _ => .ok (progress.operand found true)
  | .text | .ellipsis => .ok (progress.operand found (!afterSign))
  | .name word =>
    let word := String.ofList word
    if constants.contains word then .ok (progress.operand found (!afterSign))
    else if word = "not" || word = "lambda" || word = "await" then
      .ok { progress with closable := false, literal := false, previous := some found }
    else if keywords.contains word then .error .invalid
    else .ok (progress.operand found false)
  | .opening bracket =>
    .ok { progress with
      stack := (bracket, false) :: progress.stack, closable := true, previous := some found,
      literal := progress.literal && !afterSign }
  | .closing _ =>
    if progress.closable then
      .ok { progress with
        stack := progress.stack.tail, wanted := false, closable := false, previous := some found }
    else if progress.previous = some .colon then .error { fault := .missingValue }
    else .error .invalid
  | .operator sign =>
    if sign = '+' || sign = '-' then
      .ok { progress with
        closable := false, previous := some found, literal := progress.literal && !afterSign }
    else if sign = '~' || sign = '*' then
      .ok { progress with closable := false, previous := some found, literal := false }
    else .error .invalid
  | .newline | .comma | .colon | .dot | .equals | .stray => .error .invalid

/-- Two operands side by side: inside brackets a comma is missed. -/
def Progress.sideBySide (progress : Progress) (found : Token) : Halt :=
  match progress.stack, progress.previous, found with
  | [], _, _ | _, some (.name _), .text => { fault := .invalid, readsOn := true }
  | _, _, _ => { fault := .missingComma, readsOn := true }

/-- A place for an operator. -/
def Progress.stepOperator (progress : Progress) (found : Token) : Except Halt Progress :=
  match found with
  | .number _ | .ellipsis => .error (progress.sideBySide found)
  | .text =>
    if progress.previous = some .text then .ok progress else .error (progress.sideBySide found)
  | .name word =>
    if betweenWords.contains (String.ofList word) then
      .ok { progress with wanted := true, previous := some found, literal := false }
    else if keywords.contains (String.ofList word) then .error .invalid
    else .error (progress.sideBySide found)
  | .opening bracket =>
    if bracket = '{' then .error (progress.sideBySide found)
    else
      .ok { progress with
        stack := (bracket, false) :: progress.stack, wanted := true, closable := true,
        previous := some found, literal := false }
  | .closing _ => .ok { progress with stack := progress.stack.tail, previous := some found }
  | .comma =>
    .ok { progress with
      wanted := true, closable := true, previous := some found,
      stack := match progress.stack with
        | (bracket, _) :: rest => (bracket, false) :: rest
        | [] => [] }
  | .colon =>
    match progress.stack with
    | ('{', false) :: rest =>
      .ok { progress with wanted := true, previous := some found, stack := ('{', true) :: rest }
    | _ => .error .invalid
  | .dot => .ok { progress with wanted := true, previous := some found, literal := false }
  | .equals =>
    match progress.previous, progress.stack with
    | some (.name word), _ :: _ =>
      if constants.contains (String.ofList word) then .error .invalid
      else .error { fault := .assignment, readsOn := true }
    | some (.number _), _ :: _ | some .text, _ :: _ =>
      .error { fault := .assignmentToLiteral, readsOn := true }
    | _, _ => .error .invalid
  | .operator sign =>
    let fromNumber := match progress.previous with
      | some (.number _) => true
      | _ => false
    let isSum := sign = '+' || sign = '-'
    if sign = '~' then .error .invalid
    else
      .ok { progress with
        wanted := true, previous := some (.operator '<'),
        literal := progress.literal && fromNumber && isSum }
  | .newline => .ok { progress with previous := some .newline }
  | .stray => .error .invalid

/-- One token further. -/
def step (progress : Progress) (found : Token) : Except Halt Progress :=
  match progress.previous, found with
  | some .dot, .name _ => .ok (progress.operand found false)
  | some .dot, _ => .error .invalid
  | some .newline, .newline => .ok progress
  | some .newline, _ => .error .invalid
  | _, _ => if progress.wanted then progress.stepOperand found else progress.stepOperator found

/-- Whether a token can end an operand that has begun. -/
def endsOperand : Token → Bool
  | .closing _ | .comma | .colon | .equals | .newline | .stray => true
  | _ => false

/-- Whether tokens make up a literal value, given the fault at the end of the text. -/
def literal (ending : Option ActionFault) (progress : Progress) :
    List Token → Except ActionFault Unit
  | [] =>
    match ending with
    | some fault => .error fault
    | none =>
      if progress.wanted && !(progress.closable && progress.stack.isEmpty) then .error .invalid
      else if progress.literal then .ok ()
      else .error .notLiteral
  | found :: rest =>
    match step progress found with
    | .ok next => literal ending next rest
    | .error halt =>
      if halt.readsOn && !rest.any endsOperand then .error (ending.getD halt.fault)
      else .error halt.fault

/-! ## Handlers -/

/-- The arguments of an action without the name of its handler: nothing stands for no arguments.
What is not of the form of a handler is taken whole. -/
def arguments (parameters : List Char) : List Char :=
  let rest := parameters.dropWhile fun c => isNameChar c || c == '.'
  match rest with
  | [] => ['(', ')']
  | '(' :: inside =>
    if inside.getLast? = some ')' && !inside.contains '\n' then rest else parameters
  | _ => parameters

/-- Reads the arguments of an action. -/
def readArguments (text : List Char) : Except ActionFault Unit :=
  if text.contains '\x00' then .error .nullCharacter
  else do
    let (found, ending) ← tokens (text.length + 1) 1 [] text
    literal ending {} found

/-- Reads an action; a fault is told with the parameters. -/
def read (parameters : List Char) : Except String Unit :=
  let trimmed := Text.trimEnd (Text.trimStart parameters)
  let inner := arguments trimmed
  let whole := Text.quoted (String.ofList parameters)
  match readArguments inner with
  | .ok () => .ok ()
  | .error .notLiteral => .error s!"error parsing {whole}; {ActionFault.notLiteral.message}"
  | .error fault =>
    let part := Text.quoted (String.ofList inner)
    .error s!"error parsing {part} in {whole}; {fault.message}"

end Action

end MemoAudit.Report
