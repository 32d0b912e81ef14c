import Monorepo.Cli.Table
import Monorepo.Workspace.Runner
import Monorepo.Json.Print

/-! What the command line prints. Human output marks success with `✓`, warnings with `⚠`, notes
with `ℹ` and failures with `✗`; a command starts with a header after a blank line, and a run
lists its changes, then what the commit did, then its tasks. The model takes no time, so a commit
reports zero milliseconds. JSON output prints the run report or the project list, pretty and on
lines of its own. -/

namespace Monorepo.Cli

open Workspace Monorepo.Tree

def success (msg : String) : String := "✓ " ++ msg ++ "\n"

def warning (msg : String) : String := "⚠ " ++ msg ++ "\n"

def info (msg : String) : String := "ℹ " ++ msg ++ "\n"

def failure (msg : String) : String := "✗ " ++ msg ++ "\n"

def header (msg : String) : String := "\n" ++ msg ++ "\n"

/-- The changes, commit and tasks of a run. -/
def runSummary (r : RunReport) : String :=
  let changes := if r.changes.isEmpty then info "Nothing to change"
    else String.join (r.changes.map fun c => c.render ++ "\n")
  let commit := match r.commit with
    | some c => success ("Wrote " ++ toString c.filesWritten ++ " file(s) and deleted " ++
        toString c.filesDeleted ++ " in 0 ms")
    | none => warning "Dry run: nothing was written"
  changes ++ commit ++ String.join (r.tasksRun.map fun t => success ("Ran task '" ++ t ++ "'")) ++
    String.join (r.tasksSkipped.map fun t => info ("Skipped task '" ++ t ++ "'"))

/-- The name of a change kind in JSON. -/
def kindName : ChangeKind → String
  | .create => "create"
  | .update => "update"
  | .delete => "delete"

/-- A commit report in JSON. -/
def commitValue (c : CommitReport) : Json.Value :=
  .object [("files_written", .nat c.filesWritten), ("files_deleted", .nat c.filesDeleted),
    ("dirs_pruned", .nat c.dirsPruned), ("bytes_written", .nat c.bytesWritten),
    ("duration_ms", .nat 0)]

/-- A run report in JSON. -/
def runValue (r : RunReport) : Json.Value :=
  let strings (xs : List String) : Json.Value := .array (xs.map .str)
  .object [("generators", strings r.generators),
    ("changes", .array (r.changes.map fun c =>
      .object [("path", .str c.path.render), ("kind", .str (kindName c.kind))])),
    ("commit", match r.commit with
      | some c => commitValue c
      | none => .null),
    ("tasks_run", strings r.tasksRun), ("tasks_skipped", strings r.tasksSkipped)]

def jsonLines (v : Json.Value) : String := v.renderPretty ++ "\n"

/-- The table of projects: name, type, root, source root and targets. -/
def projectTable (projects : List Manifest) : Table :=
  { header := ["Name", "Type", "Root", "Source Root", "Targets"]
    rows := projects.map fun p =>
      [p.name, (p.projectType.map ProjectType.name).getD "-", p.root.render, p.sourceRoot.getD "-",
       ", ".intercalate (p.targets.map (·.1))] }

end Monorepo.Cli
