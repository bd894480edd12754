import MemoAudit.Report.Action
import MemoAudit.Report.TextStyle

/-!
# Markup

Text on the console may carry tags in square brackets, which style what they enclose: `[bold]`
opens, `[/bold]` closes the last tag of that name, and `[/]` closes the last tag of any name.  Names
are compared by the style that they describe.  A bracket is a tag only if it starts with a small
letter or one of `#`, `/`, `@`, is closed, and holds no further opening bracket.  Backslashes in
front of a tag stand for half their number, and if their number is odd the bracket is no tag after
all.  In front of a bracket that is no tag, one backslash vanishes.

`Markup.scan` cuts a text into plain characters and brackets of the form of a tag, together with the
backslashes in front.  `Markup.escape` writes a text so that none of its brackets is a tag, and
`Markup.render` gives what is left when the tags are taken out; a closing tag that closes nothing is
a fault.
-/

namespace MemoAudit.Markup

/-- A plain character, or a bracket of the form of a tag behind some backslashes. -/
inductive Piece where
  | plain (c : Char)
  | bracket (backslashes : Nat) (inner : List Char)
  deriving DecidableEq, Repr, Inhabited

/-- The characters that a tag may start with. -/
def startsTag (c : Char) : Bool := c.isLower || c == '#' || c == '/' || c == '@'

/-- The inside of a tag whose opening bracket has just been read, and what comes after it. -/
def tagInner? : List Char → Option (List Char × List Char)
  | [] => none
  | c :: rest =>
    if startsTag c then
      let inner := rest.takeWhile fun d => d != '[' && d != ']'
      match rest.drop inner.length with
      | ']' :: after => some (c :: inner, after)
      | _ => none
    else none

/-- The backslashes and the bracket of the form of a tag at the start of a text, if it starts so. -/
def bracket? : List Char → Option (Nat × List Char × List Char)
  | '\\' :: rest => (bracket? rest).map fun (backslashes, found) => (backslashes + 1, found)
  | '[' :: rest => (tagInner? rest).map fun found => (0, found)
  | _ => none

theorem length_lt_of_tagInner? {cs inner after : List Char}
    (h : tagInner? cs = some (inner, after)) : after.length < cs.length := by
  cases cs with
  | nil => simp [tagInner?] at h
  | cons c rest =>
    simp only [tagInner?] at h
    split at h
    · split at h
      · rename_i rest' hrest
        obtain ⟨-, rfl⟩ : _ ∧ rest' = after := by simpa using h
        have := congrArg List.length hrest
        simp only [List.length_drop, List.length_cons] at this ⊢
        omega
      · simp at h
    · simp at h

theorem length_lt_of_bracket? {cs inner after : List Char} {backslashes : Nat}
    (h : bracket? cs = some (backslashes, inner, after)) : after.length < cs.length := by
  fun_induction bracket? cs generalizing backslashes with
  | case1 rest ih =>
    obtain ⟨⟨count, found⟩, hfound, heq⟩ := Option.map_eq_some_iff.1 h
    obtain ⟨-, rfl⟩ : _ ∧ found = (inner, after) := by simpa using heq
    have := ih hfound
    simp only [List.length_cons]
    omega
  | case2 rest =>
    obtain ⟨found, hfound, heq⟩ := Option.map_eq_some_iff.1 h
    obtain ⟨-, rfl⟩ : _ ∧ found = (inner, after) := by simpa using heq
    have := length_lt_of_tagInner? hfound
    simp only [List.length_cons]
    omega
  | case3 => simp at h

/-- The pieces of a text, from left to right. -/
def scan : List Char → List Piece
  | [] => []
  | c :: rest =>
    match h : bracket? (c :: rest) with
    | some (backslashes, inner, after) =>
      have : after.length ≤ rest.length := Nat.le_of_lt_succ (length_lt_of_bracket? h)
      .bracket backslashes inner :: scan after
    | none => .plain c :: scan rest
  termination_by cs => cs.length

/-! ## Escaping -/

/-- A piece written so that it is not taken for a tag. -/
def escapePiece : Piece → List Char
  | .plain c => [c]
  | .bracket backslashes inner =>
    List.replicate (2 * backslashes + 1) '\\' ++ '[' :: inner ++ [']']

/-- Doubles a single backslash at the end, which would otherwise act on what follows. -/
def closeBackslash (cs : List Char) : List Char :=
  match cs.reverse with
  | '\\' :: '\\' :: _ => cs
  | '\\' :: _ => cs ++ ['\\']
  | _ => cs

/-- A text written so that markup shows it as it is. -/
def escape (s : String) : String :=
  String.ofList (closeBackslash ((scan s.toList).flatMap escapePiece))

/-! ## Control characters -/

/-- The control characters that move on a terminal in other ways than to the next line or tab stop:
the bell, the backspace, the vertical tab, the form feed and the carriage return. -/
def isMovement (c : Char) : Bool :=
  c == '\x07' || c == '\x08' || c == '\x0b' || c == '\x0c' || c == '\r'

/-- Characters as the console takes them, without those that would move on the terminal. -/
def sanitize (cs : List Char) : List Char := cs.filter (!isMovement ·)

/-! ## Rendering -/

/-- Why a text is not markup: a closing tag at a position closes nothing, the action of a tag cannot
be read, or a colour has an empty component. -/
inductive Fault where
  | unmatched (tag : String) (position : Nat)
  | nothingOpen (position : Nat)
  | action (explanation : String)
  | emptyComponent
  deriving DecidableEq, Repr, Inhabited

def Fault.message : Fault → String
  | .unmatched tag position =>
    s!"closing tag '[{tag}]' at position {position} doesn't match any open tag"
  | .nothingOpen position => s!"closing tag '[/]' at position {position} has nothing to close"
  | .action explanation => explanation
  | .emptyComponent => "invalid literal for int() with base 10: ''"

/-- A tag that has been opened, under the name that it is compared by. -/
structure OpenTag where
  name : String
  parameters : Option (List Char)
  deriving DecidableEq, Repr, Inhabited

/-- The name of a tag, and its parameters behind an equals sign, if there is one. -/
def splitTag (inner : List Char) : List Char × Option (List Char) :=
  let name := inner.takeWhile (· != '=')
  match inner.drop name.length with
  | [] => (name, none)
  | _ :: parameters => (name, some parameters)

/-- The name that a tag is compared by. -/
def compareName (name : List Char) : Except Fault String :=
  match Report.canonicalName name with
  | some text => .ok text
  | none => .error .emptyComponent

/-- What closing a tag does beyond that: the action of a tag is read. -/
def close (tag : OpenTag) : Except Fault Unit :=
  match tag.parameters with
  | some (c :: parameters) =>
    if tag.name.startsWith "@" then (Report.Action.read (c :: parameters)).mapError .action
    else .ok ()
  | _ => .ok ()

/-- The open tags, last first, after a further tag at a position. -/
def applyTag (position : Nat) (openTags : List OpenTag) (inner : List Char) :
    Except Fault (List OpenTag) :=
  match splitTag inner with
  | ('/' :: name, _) =>
    if Text.trimStart name = [] then
      match openTags with
      | [] => .error (.nothingOpen position)
      | tag :: rest => (close tag).map fun _ => rest
    else do
      let name ← compareName (Text.trimEnd (Text.trimStart name))
      match openTags.find? (·.name == name) with
      | none => .error (.unmatched (String.ofList inner) position)
      | some tag => (close tag).map fun _ => openTags.eraseP (·.name == name)
  | (name, parameters) => do return ⟨← compareName name, parameters⟩ :: openTags

/-- What is left of pieces when the tags are taken out, given the tags that are open and the
position of the first piece. -/
def renderPieces (position : Nat) (openTags : List OpenTag) : List Piece → Except Fault (List Char)
  | [] => .ok []
  | .plain '\\' :: .plain '[' :: rest => do
    return '[' :: (← renderPieces (position + 2) openTags rest)
  | .plain c :: rest => do
    return c :: (← renderPieces (position + 1) openTags rest)
  | .bracket backslashes inner :: rest => do
    let next := position + backslashes + inner.length + 2
    let kept := List.replicate (backslashes / 2) '\\'
    if backslashes % 2 = 1 then
      return kept ++ '[' :: inner ++ ']' :: (← renderPieces next openTags rest)
    else
      let openTags ← applyTag (position + backslashes) openTags inner
      return kept ++ (← renderPieces next openTags rest)

/-- What a text shows when its tags are taken out. -/
def render (s : String) : Except Fault (List Char) :=
  (renderPieces 0 [] (scan s.toList)).map sanitize

end MemoAudit.Markup
