import MemoAudit.Log
import MemoAudit.Rule
import MemoAudit.Workspace

/-!
# Analysing files

Every rule is run on every file.  A file that cannot be read contributes nothing, and neither does a
rule that fails on a file; both are reported, and everything else goes on.  The findings are sorted,
so that they do not depend on the order of the files.

`Workspace.findingsOf` says what a rule contributes for a path, and `Workspace.analyze` is the run.
-/

namespace MemoAudit

/-- Says how the parse of a source went. -/
def Parsed.noteOutcome (parsed : Parsed) : Logged Unit :=
  if parsed.hasErrors then
    .note .warning .parsing s!"Parse completed with errors: root={parsed.root.kind}"
  else .note .debug .parsing s!"Parse succeeded: root={parsed.root.kind}"

namespace Workspace

/-- Parses a source and says how it went. -/
def parseBytes (workspace : Workspace) (source : Bytes) : Logged Parsed := do
  let parsed := workspace.parse source
  parsed.noteOutcome
  pure parsed

/-- Parses the file at a path, if it can be read. -/
def parseFile (workspace : Workspace) (path : Path) : Logged (Option Parsed) := do
  match workspace.read path with
  | .error fault => do
    .note .error .parsing s!"Failed to read file {path}: {fault.message path}"
    pure none
  | .ok source => do
    let parsed ← workspace.parseBytes source
    let success := if parsed.hasErrors then "False" else "True"
    .note .info .parsing s!"Parsed file {path}: success={success}"
    pure (some parsed)

/-- The source file at a path, if it can be read.  Syntax errors are no obstacle. -/
def load (workspace : Workspace) (path : Path) : Logged (Option SourceFile) := do
  match workspace.read path with
  | .error fault => do
    .note .error .loading s!"Failed to read file {path}: {fault.message path}"
    pure none
  | .ok source => do
    let parsed ← workspace.parseBytes source
    if parsed.hasErrors then
      .note .warning .loading s!"File {path} parsed with syntax errors; AST may be incomplete"
    let remark := if parsed.hasErrors then " (with parse errors)" else ""
    .note .info .loading <|
      s!"Parsed {path}: {parsed.root.nodeCount} nodes, {parsed.root.methodCount} method(s)" ++
        remark
    pure (some { path, source, tree := parsed.root, hasErrors := parsed.hasErrors })

/-- The source files at those of the paths that can be read, in their order. -/
def loadAll (workspace : Workspace) (paths : List Path) : Logged (List SourceFile) := do
  let files ← paths.mapM workspace.load
  pure (files.filterMap id)

end Workspace

/-- Visits paths up to the first one that cannot be handed to the system, which ends everything. -/
def whilePresentable {α : Type} (visit : List Path → Logged α) (paths : List Path) :
    Logged (Except PathFault α) := do
  let visited ← visit (paths.takeWhile Path.isPresentable)
  pure (if paths.all Path.isPresentable then .ok visited else .error .nullCharacter)

/-! ## Rules on files -/

/-- The findings of a rule on a file; none if it fails. -/
def Rule.findingsOn (rule : Rule) (file : SourceFile) : Logged (List Finding) := do
  match ← rule.run file with
  | .ok findings => pure findings
  | .error fault => do
    .note .error .analysis s!"Rule {rule.id} failed on {file.path}: {fault.message}"
    pure []

/-- The findings of rules on a file, one rule after the other.  The program of the file is made for
the first rule that looks at it, unless that has been done already. -/
def SourceFile.check (file : SourceFile) (isLowered : Bool) : List Rule → Logged (List Finding)
  | [] => pure []
  | rule :: rest => do
    if rule.readsProgram && !isLowered then file.noteLowering
    let found ← rule.findingsOn file
    let more ← file.check (isLowered || rule.readsProgram) rest
    pure (found ++ more)

namespace Workspace

/-- The findings of rules on the file at a path; none if it cannot be read. -/
def check (workspace : Workspace) (rules : List Rule) (path : Path) : Logged (List Finding) := do
  match ← workspace.load path with
  | none => pure []
  | some file => file.check false rules

/-- The findings of rules on the files at paths, in the order of listing. -/
def analyze (workspace : Workspace) (rules : List Rule) (paths : List Path) :
    Logged (List Finding) := do
  let found ← paths.mapM (workspace.check rules)
  pure (Finding.sort found.flatten)

/-- What a rule finds in the file at a path, leaving the log aside. -/
def findingsOf (workspace : Workspace) (rule : Rule) (path : Path) : List Finding :=
  match (workspace.load path).value with
  | none => []
  | some file => (rule.findingsOn file).value

theorem value_fileCheck (file : SourceFile) (isLowered : Bool) (rules : List Rule) :
    (file.check isLowered rules).value =
      rules.flatMap fun rule => (rule.findingsOn file).value := by
  induction rules generalizing isLowered with
  | nil => rfl
  | cons rule rules ih =>
    simp only [SourceFile.check]
    split <;> simp [ih]

/-- Each rule contributes what it finds by itself. -/
theorem value_check (workspace : Workspace) (rules : List Rule) (path : Path) :
    (workspace.check rules path).value =
      rules.flatMap fun rule => workspace.findingsOf rule path := by
  simp only [check, findingsOf, Logged.value_bind]
  cases (workspace.load path).value with
  | none => simp
  | some file => simp [value_fileCheck]

end Workspace

end MemoAudit
