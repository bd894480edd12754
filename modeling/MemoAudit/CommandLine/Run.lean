import MemoAudit.Analysis
import MemoAudit.CommandLine.Arguments
import MemoAudit.Discovery.Search
import MemoAudit.Report.Labels
import MemoAudit.Report.Render
import MemoAudit.Settings.Lookup

/-!
# The command

A run goes through four stages, each of which can end it: the command line is read and the target
looked up, the configuration is loaded, the files of the target are collected, and they are
analysed.  Its outcome is what is printed and the exit code: 0 if there is nothing to complain
about, 1 if there is, 2 if the command line or the configuration is wrong.

A run is a pure function of the workspace, the width of the terminal and the arguments.
-/

namespace MemoAudit

/-- Why a run ended early, if it was not the user's configuration. -/
inductive RunFault where
  | usage (fault : UsageFault)
  | configuration (fault : ConfigFault)
  | discovery (fault : DiscoveryFault)
  | access (fault : PathFault)
  | markup (fault : Markup.Fault)
  deriving Repr

/-- The exit code of a run that ended early. -/
def RunFault.exitCode : RunFault → Nat
  | .usage _ => 2
  | .configuration _ | .discovery _ | .access _ | .markup _ => 1

def RunFault.message : RunFault → String
  | .usage fault => fault.message
  | .configuration fault => fault.message
  | .discovery fault => fault.message
  | .access fault => fault.message
  | .markup fault => fault.message

/-- How a run ended, apart from its log. -/
structure Outcome where
  exitCode : Nat
  /-- The lines that were printed. -/
  output : List String := []
  /-- What is said about a configuration that is wrong. -/
  complaint : Option String := none
  fault : Option RunFault := none
  deriving Repr

namespace Outcome

/-- A run that a fault ended before anything was printed. -/
def ofFault (fault : RunFault) : Outcome where
  exitCode := fault.exitCode
  fault := some fault

/-- A run without a configuration. -/
def ofConfigFault (fault : ConfigFault) : Outcome :=
  if fault.isExplained then
    { exitCode := 2, complaint := some s!"Configuration error: {fault.message}" }
  else ofFault (.configuration fault)

end Outcome

/-- The exit code of a run that came to its end. -/
def verdict (findings : List Finding) : Nat := if findings.isEmpty then 0 else 1

/-- The lines that are printed without any decoration. -/
def plainLines (findings : List Finding) : List String :=
  if findings.isEmpty then ["No offenses found."] else findings.map Finding.lineText

namespace Workspace

/-- The target that a command line names: it must exist, and it must not refuse to be read. -/
def target (workspace : Workspace) (given : String) : Except UsageFault Path :=
  match workspace.resolve (Path.ofString given) with
  | .error .nullCharacter => .error .unpresentableTarget
  | .error _ => .error (.absentTarget given)
  | .ok path =>
    match workspace.find path with
    | .error _ => .error (.absentTarget given)
    | .ok (.file _ false) | .ok (.directory _ { list := false, .. }) =>
      .error (.unreadableTarget given)
    | .ok _ => .ok path

/-- What a command line asks for. -/
def request (workspace : Workspace) (args : List String) : Except UsageFault Request := do
  (← Arguments.read args).toRequest workspace.target

/-- The files that a target stands for. -/
def targetFiles (workspace : Workspace) (target : Path) : Logged (Except RunFault (List Path)) :=
  match workspace.entry? target with
  | .error fault => pure (.error (.access fault))
  | .ok (some (.file ..)) =>
    if target.isRuby then pure (.ok [target]) else pure (.error (.usage (.notRuby target)))
  | .ok (some (.directory ..)) => do
    match ← workspace.discover {} target with
    | .error fault => pure (.error (.discovery fault))
    | .ok files => do
      if files.isEmpty then
        .note .warning .analysis s!"No Ruby files found under {target}"
      pure (.ok files)
  | .ok _ => pure (.error (.usage (.neitherFileNorDirectory target)))

/-- The outcome of an analysis: its findings, as lines or as a report. -/
def present (workspace : Workspace) (width : Nat) (request : Request) (files : List Path)
    (findings : List Finding) : Outcome :=
  if request.pretty then
    let (blocks, pathFault) := workspace.report findings files request.verbose
    match Report.render width blocks, pathFault with
    | (output, none), none => { exitCode := verdict findings, output }
    | (output, none), some fault => { Outcome.ofFault (.access fault) with output }
    | (output, some fault), _ => { Outcome.ofFault (.markup fault) with output }
  else { exitCode := verdict findings, output := plainLines findings }

/-- Does what was asked for. -/
def perform (workspace : Workspace) (width : Nat) (request : Request) : Logged Outcome := do
  match ← workspace.configure (request.style.map Style.name) request.target with
  | .error fault => pure (.ofConfigFault fault)
  | .ok configuration =>
    match ← workspace.targetFiles request.target with
    | .error fault => pure (.ofFault fault)
    | .ok files => do
      let findings ← workspace.analyze configuration.rules files
      pure (workspace.present width request files findings)

/-- Runs a command line.  Only urgent entries of the log are kept, unless details are asked for. -/
def run (workspace : Workspace) (width : Nat) (args : List String) : Logged Outcome :=
  match workspace.request args with
  | .error fault => pure (.ofFault (.usage fault))
  | .ok request =>
    let performed := workspace.perform width request
    { performed with
      log := performed.log.filter fun entry => request.debug || entry.level.isUrgent }

end Workspace

end MemoAudit
