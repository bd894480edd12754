import MemoAudit.FileSystem.Basic
import MemoAudit.Naming
import MemoAudit.Text.Quoted
import MemoAudit.Text.Similarity

/-!
# Command line arguments

There is one command, which takes a target and options.  An argument is read by itself first
(`Argument.read`): it is an option if it starts with a dash and has more to it, and everything after
two dashes alone is not an option, whatever it looks like.  Flags of one letter may be written
together.  Then arguments are collected from left to right (`Arguments.collect`), where the style
takes the next argument as its value if it has none of its own; of several styles the last one
counts.

Whether the values make sense is checked afterwards, so a fault in the form of any argument comes
before a fault in a value.  A name that is not known is answered with the known names that are
similar.
-/

namespace MemoAudit

/-- What is wrong with a command line.  Unknown names come with the known names that are similar; an
option where a command is expected may be similar to a command.  The last five faults are found only
when the target is looked at. -/
inductive UsageFault where
  | missingCommand
  | unknownCommand (name : String) (commands : List String)
  | unknownOption (name : String) (options : List String) (commands : List String)
  | missingValue (option : String)
  | unexpectedValue (option : String)
  | unknownStyle (word : String)
  | missingTarget
  | extraArguments (arguments : List String)
  | absentTarget (given : String)
  | unpresentableTarget
  | unreadableTarget (given : String)
  | notRuby (target : Path)
  | neitherFileNorDirectory (target : Path)
  deriving DecidableEq, Repr, Inhabited

/-- A question after similar commands, if there are any. -/
def commandHint (commands : List String) : String :=
  if commands = [] then ""
  else
    let listed := ", ".intercalate (commands.map Text.quoted)
    s!" Did you mean {listed}?"

/-- A list of similar options, if there are any. -/
def optionHint (options : List String) : String :=
  if options = [] then ""
  else
    let listed := ", ".intercalate (options.mergeSort fun a b => a < b || a == b)
    s!" (Possible options: {listed})"

def UsageFault.message : UsageFault → String
  | .missingCommand => "Missing command."
  | .unknownCommand name commands => s!"No such command {Text.quoted name}." ++ commandHint commands
  | .unknownOption name options commands =>
    let stop := if commands = [] then "" else "."
    s!"No such option: {name}{stop}" ++ commandHint commands ++ optionHint options
  | .missingValue option => s!"Option {Text.quoted option} requires an argument."
  | .unexpectedValue option => s!"Option {Text.quoted option} does not take a value."
  | .unknownStyle word =>
    let styles := ", ".intercalate (Style.all.map fun style => Text.quoted style.name)
    s!"Invalid value for '--style': Value error, {Text.quoted word} is not one of {styles}."
  | .missingTarget => "Missing argument 'target'."
  | .extraArguments arguments =>
    let listed := " ".intercalate (arguments.map Text.visible)
    s!"Got unexpected extra argument(s) ({listed})"
  | .absentTarget given => s!"Invalid value for 'target': path {Text.quoted given} does not exist."
  | .unpresentableTarget =>
    "Invalid value for 'target': Value error, " ++ PathFault.nullCharacter.message
  | .unreadableTarget given =>
    s!"Invalid value for 'target': path {Text.quoted given} is not readable."
  | .notRuby target => s!"Invalid value: Target file must be a Ruby file (.rb), got: {target}"
  | .neitherFileNorDirectory target =>
    s!"Invalid value: Target path is neither a file nor a directory: {target}"

/-- An option that is given or not. -/
inductive Flag where
  | pretty
  | verbose
  | debug
  deriving DecidableEq, Repr, Inhabited

/-- An option by its full name. -/
inductive NamedOption where
  | flag (flag : Flag)
  | style
  deriving DecidableEq, Repr, Inhabited

/-- The option that a full name, with its dashes, stands for. -/
def NamedOption.ofName? : String → Option NamedOption
  | "--pretty" => some (.flag .pretty)
  | "--verbose" => some (.flag .verbose)
  | "--debug" => some (.flag .debug)
  | "--style" => some .style
  | _ => none

/-- The full names of the options of the command. -/
def commandOptions : List String := ["--style", "--pretty", "--verbose", "--debug", "--help"]

/-- The full names of the options in front of the command. -/
def programOptions : List String := ["--install-completion", "--show-completion", "--help"]

/-- The flag that a letter stands for. -/
def Flag.ofLetter? : Char → Option Flag
  | 'v' => some .verbose
  | _ => none

/-- One argument, read by itself. -/
inductive Argument where
  /-- Two dashes alone, after which there are no options. -/
  | separator
  | flags (flags : List Flag)
  | style (value : Option String)
  | positional (text : String)
  deriving DecidableEq, Repr, Inhabited

namespace Argument

/-- Whether an argument has the form of an option. -/
def isOption (arg : String) : Bool :=
  match arg.toList with
  | '-' :: _ :: _ => true
  | _ => false

/-- The name of an option, and the value after an equals sign if there is one. -/
def nameAndValue (arg : String) : String × Option String :=
  let name := arg.toList.takeWhile (· != '=')
  match arg.toList.drop name.length with
  | [] => (arg, none)
  | _ :: value => (String.ofList name, some (String.ofList value))

/-- The flags that letters stand for. -/
def letterFlags (letters : List Char) : Except UsageFault (List Flag) :=
  letters.mapM fun letter =>
    match Flag.ofLetter? letter with
    | some flag => .ok flag
    | none => .error (.unknownOption (String.ofList ['-', letter]) [] [])

/-- Reads one argument. -/
def read (arg : String) : Except UsageFault Argument :=
  if arg = "--" then .ok .separator
  else if isOption arg then
    let (name, value) := nameAndValue arg
    match NamedOption.ofName? name, value with
    | some (.flag flag), none => .ok (.flags [flag])
    | some (.flag _), some _ => .error (.unexpectedValue name)
    | some .style, value => .ok (.style value)
    | none, _ =>
      match arg.toList with
      | '-' :: '-' :: _ => .error (.unknownOption name (Text.similarWords name commandOptions) [])
      | letters => (letterFlags (letters.drop 1)).map .flags
  else .ok (.positional arg)

end Argument

/-- The arguments of the command, as far as their form goes. -/
structure Arguments where
  word : Option String := none
  flags : List Flag := []
  positionals : List String := []
  deriving DecidableEq, Repr, Inhabited

namespace Arguments

/-- Adds arguments to those that have been read. -/
def collect (before : Arguments) : List String → Except UsageFault Arguments
  | [] => .ok before
  | arg :: rest =>
    match Argument.read arg with
    | .error fault => .error fault
    | .ok .separator => .ok { before with positionals := before.positionals ++ rest }
    | .ok (.flags flags) => collect { before with flags := before.flags ++ flags } rest
    | .ok (.style (some word)) => collect { before with word := some word } rest
    | .ok (.style none) =>
      match rest with
      | [] => .error (.missingValue arg)
      | word :: rest => collect { before with word := some word } rest
    | .ok (.positional text) =>
      collect { before with positionals := before.positionals ++ [text] } rest

/-- The name of the command. -/
def commandName : String := "analyze"

/-- The fault of a word in the place of the command that is not its name.  What looks like an option
is taken for one, but after two dashes it is compared with the command all the same. -/
def strayWord (afterDashes : Bool) (word : String) : UsageFault :=
  let commands := Text.similarWords word [commandName]
  match word.toList with
  | '-' :: letter :: more =>
    let commands := if afterDashes then commands else []
    if letter = '-' then
      if more = [] then .unknownCommand word commands
      else
        let name := (Argument.nameAndValue word).1
        .unknownOption name (Text.similarWords name programOptions) commands
    else .unknownOption (String.ofList ['-', letter]) [] commands
  | _ => .unknownCommand word commands

/-- The arguments after the command. -/
def afterCommand : List String → Except UsageFault (List String)
  | [] => .error .missingCommand
  | "--" :: [] => .error .missingCommand
  | "--" :: name :: rest => if name = commandName then .ok rest else .error (strayWord true name)
  | name :: rest => if name = commandName then .ok rest else .error (strayWord false name)

/-- Reads a whole command line. -/
def read (args : List String) : Except UsageFault Arguments := do
  collect {} (← afterCommand args)

end Arguments

/-! ## Values -/

/-- What a user asks for. -/
structure Request where
  /-- The target, an absolute path without links. -/
  target : Path
  style : Option Style := none
  pretty : Bool := false
  verbose : Bool := false
  debug : Bool := false
  deriving DecidableEq, Repr, Inhabited

/-- A letter in the form in which letters of either case are compared, as far as that is an ASCII
letter: besides the capitals of ASCII, the long s and the Kelvin sign have one. -/
def foldedChar (c : Char) : Char :=
  if c = 'ſ' then 's' else if c = Char.ofNat 0x212A then 'k' else c.toLower

/-- The style that a word names, in any case. -/
def Style.ofWord (word : String) : Except UsageFault Style :=
  match Style.ofName? (String.ofList (word.toList.map foldedChar)) with
  | some style => .ok style
  | none => .error (.unknownStyle word)

/-- Checks the values of arguments: the style, the target, and that there is nothing else.  How a
target is looked up is left open. -/
def Arguments.toRequest (arguments : Arguments) (lookUp : String → Except UsageFault Path) :
    Except UsageFault Request := do
  let style ← arguments.word.mapM Style.ofWord
  match arguments.positionals with
  | [] => .error .missingTarget
  | given :: extra =>
    let target ← lookUp given
    if extra = [] then
      return { target, style
               pretty := arguments.flags.contains .pretty
               verbose := arguments.flags.contains .verbose
               debug := arguments.flags.contains .debug }
    else .error (.extraArguments extra)

end MemoAudit
