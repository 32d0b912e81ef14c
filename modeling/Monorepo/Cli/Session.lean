import Monorepo.Cli.Interface
import Monorepo.Cli.Report
import Monorepo.Config.Load
import Monorepo.Json.Read
import Monorepo.Text.Blank

/-! The tool's commands over a disk. A session opens the workspace at a host path, which must
exist, and loads its settings; each command then stages its changes over the disk and runs them
through the generator runner, so dry runs, commits and tasks behave the same for all of them.
A command prints to its console and fails with the chain of its errors, outermost first, each
after `: `; whatever a failing command committed before failing stays on the disk. -/

namespace Monorepo.Cli

open Workspace

/-- An open workspace and how its commands run. -/
structure Session where
  /-- Where the workspace root lies on the disk. -/
  root : List Name
  /-- The host path of the root. -/
  rootText : String
  config : Config.ToolConfig
  format : Format := .human
  dryRun : Bool := false
  skipTasks : Bool := false

/-- What commands see and change: the disk, and what they printed. -/
structure Console where
  disk : Disk
  out : String := ""

/-- Commands: they print, change the disk, and may fail with a message. -/
abbrev CommandStep := ExceptT String (StateM Console)

def say (text : String) : CommandStep Unit := modify fun c => { c with out := c.out ++ text }

def orFail {α : Type} : Outcome α → CommandStep α
  | .ok a => pure a
  | .error e => throw e.chain

namespace Session

/-- Opens the workspace at a host path on a disk whose top directory is at `top`, with the
settings file at `configPath` when one is given. -/
def «open» (d : Disk) (top root : String) (configPath : Option String) (format : Format)
    (lookup : String → Option String) : Except String Session := do
  let location ← match d.canonical top root with
    | .ok p => pure p
    | .error e => throw ("Workspace root " ++ root ++ " does not exist: " ++ e.message)
  let rootText := Disk.hostPath top location
  let loaded := match configPath with
    | some p => Config.loadPath d top p lookup
    | none => Config.load d top rootText lookup
  let config ← loaded.mapError fun e => "Failed to load configuration: " ++ e.chain
  return { root := location, rootText, config, format }

def tree (s : Session) (d : Disk) : StagedTree :=
  { disk := d, base := s.root, settings := s.config.commit }

def announce (s : Session) (msg : String) : CommandStep Unit :=
  if s.format == .human then say (header msg) else pure ()

/-- Runs generators over the workspace and prints the run. -/
def run (s : Session) (generators : List Generator) : CommandStep RunReport := do
  let c ← get
  let (result, st) := ((runGenerators generators s.dryRun s.skipTasks).run).run { tree := s.tree c.disk }
  set { c with disk := st.tree.disk }
  let report ← orFail result
  say (match s.format with
    | .json => jsonLines (runValue report)
    | .human => runSummary report)
  return report

/-- Lists the workspace's projects: a table, or JSON. -/
def listProjects (s : Session) : CommandStep Unit := do
  let registry ← orFail (Registry.build (s.tree (← get).disk) s.config)
  if s.format == .json then
    say (jsonLines (.array (registry.projects.map fun m => .object m.toMembers)))
  else if registry.projects.isEmpty then say (info ("No projects found in " ++ s.rootText))
  else say ((projectTable registry.projects).render ++ "\n")

def moveProject (s : Session) (request : RelocateRequest) : CommandStep Unit := do
  s.announce ("Moving '" ++ request.project ++ "' to " ++ request.destination)
  let _ ← s.run [.move s.config request]

/-- Moves every project of a single-root workspace into its layout's directories. -/
def convert (s : Session) : CommandStep Unit := do
  s.announce "Converting to a monorepo layout"
  let _ ← s.run [.convert s.config]

/-- Moves vite build settings into each project's vite config. -/
def migrateViteBuild (s : Session) : CommandStep Unit := do
  s.announce "Updating vite build configuration"
  let _ ← s.run [.vite s.config]

end Session

/-- Splits `PATH=VALUE` at its first `=`: the path is trimmed and must not be empty; the value
is JSON, or a plain string when it is not JSON. -/
def parseAssignment (assignment : String) : Except String (String × Codemod.PatchValue) :=
  match assignment.splitOn "=" with
  | path :: value :: more =>
    let path := Text.trimBlank path
    let raw := "=".intercalate (value :: more)
    if path.isEmpty then .error ("Missing property path in '" ++ assignment ++ "'")
    else
      match Json.parse raw with
      | .ok v => .ok (path, .literal v)
      | .error _ => .ok (path, .literal (.string raw))
  | _ => .error ("Expected PATH=VALUE, got '" ++ assignment ++ "'")

namespace Session

/-- Sets properties of one configuration object, each assignment in the same mode. -/
def patchFile (s : Session) (file : String) (assignments : List String) (mode : Codemod.PatchMode)
    (locator : Codemod.Locator) : CommandStep Unit := do
  if assignments.isEmpty then throw "Nothing to patch: pass at least one --set PATH=VALUE"
  let path ← orFail (Path.parse file)
  let entries ← assignments.mapM fun a => do
    let (dotted, value) ← match parseAssignment a with
      | .ok x => pure x
      | .error msg => throw msg
    pure ({ path := dotted.splitOn ".", value, mode } : Codemod.PatchEntry)
  s.announce ("Patching " ++ path.render ++ " (" ++ locator.describe ++ ")")
  let _ ← s.run [.patch path locator ⟨entries, []⟩]

/-- Performs what a command line asks for. -/
def perform (s : Session) : Action → CommandStep Unit
  | .projects => s.listProjects
  | .move request => s.moveProject request
  | .convert => s.convert
  | .migrateViteBuild => s.migrateViteBuild
  | .patch file assignments mode locator => s.patchFile file assignments mode locator

end Session

end Monorepo.Cli
