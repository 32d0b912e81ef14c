import Monorepo.Cli.Parse
import Monorepo.Workspace.Relocate
import Monorepo.Codemod.Patch

/-! The tool's command line: its commands, their arguments and help texts, and what a read
command line asks for. The options that every command accepts may be given before or after the
command's name; when given at both places the later one counts. -/

namespace Monorepo.Cli

/-- The options every command accepts. -/
def sharedArgs : List Arg :=
  [{ id := "root", long := some "root", takes := .single "ROOT", help := "Workspace root",
     default := some ".", global := true, nonEmpty := true },
   { id := "config", long := some "config", short := some 'c', takes := .single "CONFIG",
     help := "Configuration file path (defaults to monotree.toml in the root)", global := true,
     nonEmpty := true },
   { id := "dry_run", long := some "dry-run",
     help := "Show what would change without writing anything", global := true },
   { id := "skip_tasks", long := some "skip-tasks",
     help := "Do not run post-commit tasks such as package installs", global := true },
   { id := "verbose", long := some "verbose", short := some 'v', help := "Enable verbose logging",
     global := true },
   { id := "format", long := some "format", takes := .single "FORMAT",
     help := "Output format (human, json)", default := some "human", choices := ["human", "json"],
     global := true }]

def helpArg : Arg :=
  { id := "help", long := some "help", short := some 'h', help := "Print help", effect := .showHelp }

def versionArg : Arg :=
  { id := "version", long := some "version", short := some 'V', help := "Print version",
    effect := .showVersion }

/-- A command with the shared options and the help switch after its own arguments. -/
def command (parent name about : String) (own : List Arg) (subcommands : List Command := []) :
    Command :=
  { name, path := parent ++ " " ++ name, about, args := own ++ sharedArgs ++ [helpArg],
    group := own.map (·.id), subcommands }

/-- The `help` command of a command with subcommands. -/
def helpCommand (parent : String) : Command :=
  { name := "help", path := parent ++ " help",
    about := "Print this message or the help of the given subcommand(s)",
    args := [{ id := "subcommand", takes := .rest "COMMAND",
               help := "Print help for the subcommand(s)" }] ++ sharedArgs }

/-- The `move` command. -/
def moveCommand : Command :=
  command "monotree" "move" "Move a project and rewrite references to it"
    [{ id := "project", takes := .position "PROJECT", help := "Project name" },
     { id := "destination", takes := .position "DESTINATION",
       help := "New root, relative to the workspace root" },
     { id := "new_name", long := some "new-name", takes := .single "NEW_NAME",
       help := "Rename the project" },
     { id := "import_path", long := some "import-path", takes := .single "IMPORT_PATH",
       help := "New import path (implies --update-import-path)" },
     { id := "update_import_path", long := some "update-import-path",
       help := "Derive a new import path from the new name" },
     { id := "no_update_references", long := some "no-update-references",
       help := "Only move files, leave references untouched" }]

/-- The `patch` command. -/
def patchCommand : Command :=
  command "monotree" "patch" "Set properties of a configuration object in a JS/TS file"
    [{ id := "file", takes := .position "FILE", help := "File relative to the workspace root" },
     { id := "assignments", long := some "set", takes := .repeated "PATH=VALUE",
       help := "PATH=VALUE, VALUE being JSON or a plain string (repeatable)" },
     { id := "mode", long := some "mode", takes := .single "MODE",
       help := "What to do with existing different values", default := some "merge",
       choices := ["merge", "skip", "replace", "append"] },
     { id := "callee", long := some "callee", takes := .single "CALLEE",
       help := "Patch the object passed to this call in the default export",
       conflicts := ["variable"] },
     { id := "variable", long := some "variable", takes := .single "VARIABLE",
       help := "Patch the object assigned to this top-level variable" }]

/-- The `migrate` command and its migrations. -/
def migrateCommand : Command :=
  command "monotree" "migrate" "Run a configuration migration" []
    [command "monotree migrate" "vite-build-config"
       "Move vite build output settings into vite.config.*" [],
     helpCommand "monotree migrate"]

/-- The tool's command line. -/
def program : Command :=
  { name := "monotree", path := "monotree",
    about := "Relocate projects and migrate configuration in JS/TS monorepos",
    version := some "0.1.0",
    args := sharedArgs ++ [helpArg, versionArg],
    group := sharedArgs.map (·.id),
    subcommands :=
      [command "monotree" "projects" "List projects" [],
       moveCommand,
       command "monotree" "convert-to-monorepo"
         "Move every project of a single-root workspace into apps/libs" [],
       migrateCommand,
       patchCommand,
       helpCommand "monotree"] }

/-- How results are printed. -/
inductive Format where
  | human
  | json
  deriving DecidableEq, Repr

/-- The options shared by every command. -/
structure Options where
  root : String := "."
  config : Option String := none
  dryRun : Bool := false
  skipTasks : Bool := false
  verbose : Bool := false
  format : Format := .human
  deriving DecidableEq, Repr

/-- What a command line asks the tool to do. -/
inductive Action where
  | projects
  | move (request : Workspace.RelocateRequest)
  | convert
  | migrateViteBuild
  | patch (file : String) (assignments : List String) (mode : Codemod.PatchMode)
      (locator : Codemod.Locator)

/-- A read command line. -/
structure Invocation where
  options : Options
  action : Action

/-- The values given for an argument at the deepest command that was given it. -/
def valuesOf (levels : List Level) (id : String) : Option (List String) :=
  levels.foldl (fun found l => match l.given.find? (·.1 == id) with
    | some (_, vs) => some vs
    | none => found) none

/-- The value given for an argument, else its default. -/
def valueOf (levels : List Level) (id : String) (default : Option String := none) : Option String :=
  match valuesOf levels id with
  | some (v :: _) => some v
  | _ => default

def given (levels : List Level) (id : String) : Bool := (valuesOf levels id).isSome

/-- The move request a command line asks for: setting an import path asks to update it. -/
def moveRequest (levels : List Level) : Workspace.RelocateRequest :=
  let importPath := valueOf levels "import_path"
  { project := (valueOf levels "project").getD "", destination := (valueOf levels "destination").getD ""
    newName := valueOf levels "new_name"
    updateReferences := !given levels "no_update_references"
    updateImportPath := given levels "update_import_path" || importPath.isSome
    importPath }

/-- The patch mode named on the command line. -/
def patchMode : String → Codemod.PatchMode
  | "skip" => .skip
  | "replace" => .replace
  | "append" => .append
  | _ => .merge

/-- What a read command line asks for. -/
def invocation (levels : List Level) : Invocation :=
  let options : Options :=
    { root := (valueOf levels "root" (some ".")).getD "."
      config := valueOf levels "config"
      dryRun := given levels "dry_run"
      skipTasks := given levels "skip_tasks"
      verbose := given levels "verbose"
      format := if valueOf levels "format" == some "json" then .json else .human }
  let names := levels.map (·.command.name)
  let action : Action := match names with
    | [_, "move"] => .move (moveRequest levels)
    | [_, "convert-to-monorepo"] => .convert
    | [_, "migrate", _] => .migrateViteBuild
    | [_, "patch"] =>
      let locator : Codemod.Locator := match valueOf levels "variable" with
        | some name => .variable name
        | none => .defaultExport (valueOf levels "callee")
      .patch ((valueOf levels "file").getD "") ((valuesOf levels "assignments").getD [])
        (patchMode ((valueOf levels "mode").getD "merge")) locator
    | _ => .projects
  { options, action }

def readCommandLine (words : List String) : Except Stop Invocation :=
  (parse program words).map invocation

end Monorepo.Cli
