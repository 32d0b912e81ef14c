import Monorepo.Workspace.Layout
import Monorepo.Codemod.ViteBuild
import Monorepo.Tree.Commit

/-! Running generators over a staged tree. Each generator stages its changes and may queue tasks
to run after the commit, such as installing packages; a task whose label is queued already is
dropped. A dry run stops before the commit and skips every task; otherwise the tree is committed
and the tasks run in order unless they are skipped, the first failing task ending the run. -/

namespace Monorepo.Workspace

open Monorepo.Tree Codemod

/-- What a post-commit task does. -/
inductive TaskAction where
  /-- Succeeds. -/
  | succeed
  /-- Fails, naming the task. -/
  | fail
  /-- Runs a program with arguments in the workspace root. -/
  | command (program : String) (args : List String)
  deriving DecidableEq, Repr

/-- A task to run after the commit. -/
structure Task where
  label : String
  action : TaskAction
  deriving DecidableEq, Repr

/-- Runs a task. Of programs, `true` succeeds, `false` exits with status 1, and any other is not
found. -/
def Task.run (t : Task) : Outcome Unit :=
  match t.action with
  | .succeed => .ok ()
  | .fail => .error (.invalidInput s!"task {t.label} failed")
  | .command program args =>
    if program == "true" then .ok ()
    else if program == "false" then
      let joined := " ".intercalate args
      .error (.other s!"'{program} {joined}' exited with exit status: 1")
    else .error (.io .notFound)

/-- Lock files and the package manager each one stands for, in the order they are looked for. -/
def lockFiles : List (String × String) :=
  [("pnpm-lock.yaml", "pnpm"), ("yarn.lock", "yarn"), ("bun.lockb", "bun"),
   ("package-lock.json", "npm")]

/-- The package manager of the workspace: the first whose lock file exists, else npm. -/
def packageManager (t : StagedTree) : String :=
  ((lockFiles.find? fun (lock, _) => match Path.parse lock with
    | .ok p => t.isFile p
    | .error _ => false).map (·.2)).getD "npm"

/-- The install task, when some staged change touches a package manifest. -/
def installPackagesTask (t : StagedTree) : Option Task :=
  if t.changes.any (·.path.fileName == some "package.json") then
    some ⟨"install packages", .command (packageManager t) ["install"]⟩
  else none

/-- A generator of changes. -/
inductive Generator where
  | move (config : Config.ToolConfig) (request : RelocateRequest)
  | convert (config : Config.ToolConfig)
  | vite (config : Config.ToolConfig)
  | patch (file : Path) (locator : Locator) (patch : ConfigPatch)
  /-- Stages the given files, in order, and queues the given tasks. -/
  | fixed (name : String) (writes : List (Path × Utf8.Bytes)) (tasks : List Task)

namespace Generator

/-- The name of a generator. -/
def name : Generator → String
  | .move .. => "move"
  | .convert .. => "convert-to-monorepo"
  | .vite .. => "vite-build-config"
  | .patch .. => "patch"
  | .fixed name .. => name

/-- Stages the generator's changes and gives its tasks. -/
def generate : Generator → TreeStep (List Task)
  | .move config request => do
    let _ ← relocate config request
    return (installPackagesTask (← get)).toList
  | .convert config => do
    let _ ← convertToMonorepo config
    return (installPackagesTask (← get)).toList
  | .vite config => do
    let _ ← updateViteBuildConfig config
    return []
  | .patch file locator edits => do
    TreeStep.update fun t => (applyConfigPatch t file locator edits).map (·.1)
    return []
  | .fixed _ writes tasks => do
    for (p, content) in writes do TreeStep.update fun t => t.write p content
    return tasks

end Generator

/-- A generator as the runner sees it: its name, and the step that stages its changes and gives
the tasks it asks for. -/
structure Staging where
  name : String
  stage : TreeStep (List Task)

def Generator.staging (g : Generator) : Staging := ⟨g.name, g.generate⟩

/-- What a run did. -/
structure RunReport where
  generators : List String := []
  changes : List Change := []
  commit : Option CommitReport := none
  tasksRun : List String := []
  tasksSkipped : List String := []

/-- A task queued by a generator, or started after the commit. -/
inductive TaskEvent where
  | queued (task : Task)
  | started (task : Task)

/-- The tree of a run and the task events so far. -/
structure RunState where
  tree : StagedTree
  events : List TaskEvent := []

/-- Steps of a run. -/
abbrev RunStep := ExceptT Error (StateM RunState)

/-- Runs steps of a run from a state: the result and the state afterwards. -/
def RunStep.runOn {α : Type} (step : RunStep α) (st : RunState) : Outcome α × RunState :=
  (step.run).run st

/-- Runs tree steps within a run. -/
def onTree {α : Type} (step : TreeStep α) : RunStep α :=
  ExceptT.mk fun st =>
    let (result, tree) := step.runOn st.tree
    pure (result, { st with tree })

def record (es : List TaskEvent) : RunStep Unit :=
  modify fun st => { st with events := st.events ++ es }

/-- Adds a task to the queue unless a task of its label is queued already. -/
def enqueue (queued : List Task) (task : Task) : List Task :=
  if queued.any (·.label == task.label) then queued else queued ++ [task]

/-- Runs the generators in order on the tree, recording each task they ask for and queueing it;
the first failure ends the run. Gives the tasks queued. -/
def stageAll (queued : List Task) : List Staging → RunStep (List Task)
  | [] => pure queued
  | g :: rest => do
    let made ← onTree g.stage
    record (made.map .queued)
    stageAll (made.foldl enqueue queued) rest

/-- Runs tasks in order, collecting their labels; the first failing task ends the run, naming
it. -/
def runTasks (ran : List String) : List Task → RunStep (List String)
  | [] => pure ran
  | task :: rest => do
    record [.started task]
    match task.run with
    | .ok () => runTasks (ran ++ [task.label]) rest
    | .error e => throw (.other s!"post-commit task '{task.label}' failed: {e.message}")

/-- Runs generators in order, then commits and runs their tasks as asked. -/
def runStagings (generators : List Staging) (dryRun skipTasks : Bool) : RunStep RunReport := do
  let tasks ← stageAll [] generators
  let report : RunReport := { generators := generators.map (·.name), changes := (← get).tree.changes }
  if dryRun then return { report with tasksSkipped := tasks.map (·.label) }
  let commit ← onTree StagedTree.commit
  let report := { report with commit := some commit }
  if skipTasks then return { report with tasksSkipped := tasks.map (·.label) }
  let ran ← runTasks [] tasks
  return { report with tasksRun := ran }

def runGenerators (generators : List Generator) (dryRun skipTasks : Bool) : RunStep RunReport :=
  runStagings (generators.map Generator.staging) dryRun skipTasks

end Monorepo.Workspace
