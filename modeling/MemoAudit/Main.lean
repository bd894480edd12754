import MemoAudit.CommandLine.Run
import MemoAudit.Snapshot

/-!
# The program

Reads a snapshot of a workspace from the standard input, runs the command line on it, prints what
the run printed, and exits with its code.  Everything that decides anything is in `Workspace.run`.
-/

namespace MemoAudit

/-- The exit code for an input that is not a snapshot. -/
def badSnapshot : UInt32 := 3

/-- All of a stream, line by line. -/
partial def readAll (input : IO.FS.Stream) (before : String) : IO String := do
  let line ← input.getLine
  if line.isEmpty then return before
  readAll input (before ++ line)

/-- What a run says besides its output: the log, and why it ended early. -/
def Outcome.remarks (outcome : Outcome) (log : List LogEntry) : List String :=
  log.map LogEntry.text ++ outcome.complaint.toList ++
    (outcome.fault.map fun fault => s!"Error: {fault.message}").toList

end MemoAudit

open MemoAudit

def main (args : List String) : IO UInt32 := do
  match Snapshot.read (← readAll (← IO.getStdin) "") with
  | none =>
    (← IO.getStderr).putStrLn "The input is not a snapshot."
    return badSnapshot
  | some snapshot =>
    let finished := snapshot.workspace.run snapshot.columns args
    let output ← IO.getStdout
    let remarks ← IO.getStderr
    for line in finished.value.output do
      output.putStrLn line
    for line in finished.value.remarks finished.log do
      remarks.putStrLn line
    return UInt32.ofNat finished.value.exitCode
