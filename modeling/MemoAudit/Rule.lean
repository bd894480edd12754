import MemoAudit.Finding.Validation
import MemoAudit.Idiom
import MemoAudit.Lowering
import MemoAudit.Naming

/-!
# Rules

A rule looks at one source file and yields findings, or fails.  The rule of this library walks the
program and complains about every candidate whose variable has the wrong name (`checkNames`): an
or-assignment gives one finding, a guard gives three that share their message.
-/

namespace MemoAudit

/-- A file that has been read and parsed. -/
structure SourceFile where
  path : Path
  source : Bytes
  tree : ParseTree
  hasErrors : Bool := false
  deriving Repr, Inhabited

/-- The program of a file. -/
def SourceFile.program (file : SourceFile) : Expr := lowerFile file.source file.tree

/-- Says that the program of a file has been made. -/
def SourceFile.noteLowering (file : SourceFile) : Logged Unit :=
  .note .debug .lowering
    s!"Lowered tree: {file.program.children.length} top-level statement(s)"

/-- Why a rule did not get through a file. -/
inductive RuleFault where
  | idiom (fault : IdiomFault)
  | location (faults : List FieldFault)
  | failed (message : String)
  deriving DecidableEq, Repr, Inhabited

/-- What is said about a rule that failed. -/
def RuleFault.message : RuleFault → String
  | .idiom .emptySequence => "a method has an empty body"
  | .location faults => "; ".intercalate (faults.map fun fault => fault.cause.message)
  | .failed message => message

/-! ## Complaints -/

/-- The place and the text that findings are made for. -/
structure Excerpt where
  path : Path
  source : Bytes
  deriving Repr, Inhabited

/-- The finding with a message at a span. -/
def Excerpt.finding (excerpt : Excerpt) (ruleId message severity : String) (span : Span) :
    Except (List FieldFault) Finding := do
  let location ← (Location.ofSpan excerpt.path excerpt.source span).toExcept
  return { ruleId, message, location, severity }

/-- The findings for a candidate in a method: none if its name is acceptable, otherwise one for each
place. -/
def emit (candidate : Candidate) (method : String) (style : Style) (excerpt : Excerpt)
    (ruleId : String) (severity : String := defaultSeverity) : Logged (Checked (List Finding)) :=
  if style.accepts method candidate.ivar then pure (.good [])
  else do
    .note .debug .emission <|
      s!"{excerpt.path}: {candidate.ivar} in method {method} does not match " ++
        s!"({candidate.spans.length} location(s))"
    let message := style.message candidate.ivar method
    match candidate.spans.mapM (excerpt.finding ruleId message severity) with
    | .ok findings => pure (.good findings)
    | .error faults => pure (.bad faults)

/-- The identifier of the rule about the names of memoized variables. -/
def namingRuleId : String := "memoized-instance-variable-name"

def namingRuleName : String := "Memoized instance variable name"

/-- The findings at one occurrence. -/
def checkVisit (style : Style) (excerpt : Excerpt) (visit : Visit) :
    Logged (Except RuleFault (List Finding)) := do
  match ← matchIdiom visit with
  | .error fault => pure (.error (.idiom fault))
  | .ok none => pure (.ok [])
  | .ok (some found) =>
    match ← emit found.candidate found.method.name style excerpt namingRuleId with
    | .good findings => pure (.ok findings)
    | .bad faults => pure (.error (.location faults))

/-- The findings at each of several occurrences, up to the first failure. -/
def checkVisits (style : Style) (excerpt : Excerpt) :
    List Visit → Logged (Except RuleFault (List Finding))
  | [] => pure (.ok [])
  | visit :: rest => do
    match ← checkVisit style excerpt visit with
    | .error fault => pure (.error fault)
    | .ok findings =>
      match ← checkVisits style excerpt rest with
      | .error fault => pure (.error fault)
      | .ok more => pure (.ok (findings ++ more))

/-- The findings about the names of memoized variables in a program. -/
def checkNames (style : Style) (excerpt : Excerpt) (program : Expr) :
    Logged (Except RuleFault (List Finding)) := do
  match ← checkVisits style excerpt program.walk with
  | .error fault => pure (.error fault)
  | .ok findings => do
    .note .debug .rule
      s!"{excerpt.path}: {findings.length} finding(s) with style={style.name}"
    pure (.ok findings)

/-! ## Rules in general -/

/-- Something that looks at a file. -/
structure Rule where
  id : String
  name : String
  /-- Whether the rule looks at the program of the file, which is made for the first such rule. -/
  readsProgram : Bool
  run : SourceFile → Logged (Except RuleFault (List Finding))

/-- The rule about names under a style. -/
def namingRule (style : Style) : Rule where
  id := namingRuleId
  name := namingRuleName
  readsProgram := true
  run file := checkNames style ⟨file.path, file.source⟩ file.program

end MemoAudit
