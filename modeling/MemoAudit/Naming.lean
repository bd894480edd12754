/-!
# Names for memoized variables

A method that caches its result in an instance variable should name the variable after itself.  How
strictly, and with or without a leading underscore, is a matter of *style*; this file fixes, for
each of the three styles, the variable names that a method accepts, the one to recommend, and the
sentence to print about any other.

Names are compared *bare*: the sigil is dropped from the variable (`bareName`), and `!` and `?` are
dropped from the method (`baseName`), so that `ready?`, `ready!` and `ready` share their rules.  A
method whose name starts with an underscore may drop one underscore under the lenient styles and
must keep or double it under the strict one; `Style.candidates` lists what is accepted, best first.

The constructor method `initialize` is exempt whatever its variables are called.
-/

namespace MemoAudit

/-- Whether a memoized variable carries a leading underscore: it should not, it must, or it may. -/
inductive Style where
  | disallowed
  | required
  | optional
  deriving DecidableEq, Repr, Inhabited

namespace Style

/-- Every style, in the order in which they are offered to a user. -/
def all : List Style := [.disallowed, .required, .optional]

/-- The word by which a style is written in settings and arguments. -/
def name : Style → String
  | .disallowed => "disallowed"
  | .required => "required"
  | .optional => "optional"

/-- The style written as exactly this word. -/
def ofName? (word : String) : Option Style :=
  all.find? fun style => style.name == word

theorem ofName?_name (style : Style) : ofName? style.name = some style := by
  cases style <;> rfl

theorem ofName?_eq_some_iff {word : String} {style : Style} :
    ofName? word = some style ↔ word = style.name := by
  constructor
  · intro h
    have hname := List.find?_some (p := fun style : Style => style.name == word) h
    exact (eq_of_beq hname).symm
  · rintro rfl
    exact ofName?_name style

end Style

/-! ## Bare names -/

/-- A method's name without the `!` and `?` that Ruby lets it carry. -/
def baseName (method : String) : String :=
  String.ofList (method.toList.filter fun c => c != '!' && c != '?')

/-- A variable's name without its first `@`. -/
def bareName (ivar : String) : String :=
  String.ofList (ivar.toList.erase '@')

/-- A name with an underscore put in front. -/
def underscored (name : String) : String :=
  String.ofList ('_' :: name.toList)

/-- Whether a name starts with an underscore. -/
def isUnderscored (name : String) : Bool :=
  name.toList.head? == some '_'

/-- A name without its leading underscore, if it has one. -/
def withoutUnderscore (name : String) : String :=
  match name.toList with
  | '_' :: rest => String.ofList rest
  | _ => name

/-- The name of the method that sets up an object; its variables may have any name. -/
def initializerName : String := "initialize"

/-! ## Acceptance -/

namespace Style

/-- The bare names that a method accepts for its memoized variable, best first and each once. -/
def candidates (style : Style) (method : String) : List String :=
  let base := baseName method
  List.eraseDups <|
    match style with
    | .disallowed => [base, withoutUnderscore base]
    | .required => underscored base :: if isUnderscored base then [base] else []
    | .optional => [base, underscored base, withoutUnderscore base]

/-- The bare name to recommend for a method's memoized variable. -/
def suggested (style : Style) (method : String) : String :=
  match style with
  | .required => underscored (baseName method)
  | .disallowed | .optional => baseName method

/-- Whether a variable, written with or without its sigil, may memoize the method. -/
def accepts (style : Style) (method ivar : String) : Bool :=
  method == initializerName || (style.candidates method).contains (bareName ivar)

/-- Whether the complaint about a variable is that its underscore is missing. -/
def lacksUnderscore (style : Style) (ivar : String) : Bool :=
  style == .required && !isUnderscored (bareName ivar)

/-- The complaint about a variable inside a method. -/
def message (style : Style) (ivar method : String) : String :=
  let suggestion := style.suggested method
  if style.lacksUnderscore ivar then
    s!"Memoized variable `{ivar}` does not start with `_`. Use `@{suggestion}` instead."
  else
    s!"Memoized variable `{ivar}` does not match method name `{method}`. " ++
      s!"Use `@{suggestion}` instead."

end Style

end MemoAudit
