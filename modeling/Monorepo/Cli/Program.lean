import Monorepo.Cli.Session

/-! One run of the tool: read the command line, open the workspace it names, and perform the
command. Help and the version go to standard output and succeed; a refused command line goes to
the error stream with status 2; a failing command prints `✗` and its error chain to the error
stream with status 1, keeping what it printed and committed before. -/

namespace Monorepo.Cli

/-- What a run leaves behind: its exit status, its two streams, and the disk. -/
structure Finish where
  status : Nat
  stdout : String
  stderr : String
  disk : Disk

/-- Runs the tool with command-line words on a disk whose top directory, the working
directory, is at host path `top`; `lookup` reads the environment. -/
def runTool (top : String) (lookup : String → Option String) (words : List String) (d : Disk) :
    Finish :=
  match readCommandLine words with
  | .error (.help page) => ⟨0, page, "", d⟩
  | .error (.version text) => ⟨0, text, "", d⟩
  | .error (.helpOnError page) => ⟨2, "", page, d⟩
  | .error (.refused r) => ⟨2, "", r.render, d⟩
  | .ok inv =>
    let o := inv.options
    match Session.open d top o.root o.config o.format lookup with
    | .error msg => ⟨1, "", failure msg, d⟩
    | .ok s =>
      let s := { s with dryRun := o.dryRun, skipTasks := o.skipTasks }
      let (result, console) := ((s.perform inv.action).run).run { disk := d }
      match result with
      | .ok () => ⟨0, console.out, "", console.disk⟩
      | .error msg => ⟨1, console.out, failure msg, console.disk⟩

end Monorepo.Cli
