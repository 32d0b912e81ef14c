import Monorepo.Codemod.FilePatch
import Monorepo.Workspace.Registry

/-! Moving a project's vite build settings into its vite configuration file. For every project
whose vite build target names an output path and whose directory holds a vite configuration, the
configuration object passed to `defineConfig` gets the output directory (relative to the
project), compressed-size reporting and mixed module transformation, and the file replacements
of the target's options and configurations as a `replaceFiles` plugin. -/

namespace Monorepo.Codemod

open Json Workspace

def viteBuildExecutors : List String := ["@nx/vite:build", "@nrwl/vite:build"]

/-- Names of vite configuration files, in the order they are looked for. -/
def viteConfigFiles : List String := ["vite.config.ts", "vite.config.mts", "vite.config.js"]

/-- The plugin that replaces files at build time, and its module. -/
def replaceFilesPlugin : NamedImport :=
  ⟨"replaceFiles", "@nx/vite/plugins/rollup-replace-files.plugin"⟩

/-- What the migration did to each project. -/
structure MigrationReport where
  updated : List String := []
  unchanged : List String := []
  failures : List (String × Error) := []

def MigrationReport.isClean (r : MigrationReport) : Bool := r.failures.isEmpty

/-- The first vite build target that names an output path. -/
def viteBuildTarget (m : Manifest) : Option Target :=
  (m.targets.map (·.2)).find? fun t =>
    (t.executor.map viteBuildExecutors.contains).getD false && (t.optionString "outputPath").isSome

/-- The file replacements of a target's options and configurations, without repeats. -/
def fileReplacements (t : Target) : List Value :=
  let sources := t.options.toList ++ ((t.configurations.getD []).map (·.2))
  sources.foldl (fun acc options =>
    match Members.get? options "fileReplacements" with
    | some (.array entries) =>
      entries.foldl (fun acc e => if acc.any (· == e) then acc else acc ++ [e]) acc
    | _ => acc) []

/-- The vite configuration file of a project directory. -/
def findViteConfig (t : StagedTree) (root : Path) : Outcome (Option Path) := do
  for name in viteConfigFiles do
    let candidate ← root.join name
    if t.isFile candidate then return some candidate
  return none

/-- The patch for one project. -/
def buildPatch (root : Path) (outputPath : String) (replacements : List Value) : ConfigPatch :=
  let entries : List PatchEntry :=
    [⟨["build", "outDir"], .literal (.string (root.offsetFromRoot ++ outputPath)), .skip⟩,
     ⟨["build", "reportCompressedSize"], .literal (.bool true), .skip⟩,
     ⟨["build", "commonjsOptions", "transformMixedEsModules"], .literal (.bool true), .merge⟩]
  if replacements.isEmpty then ⟨entries, []⟩
  else ⟨entries ++ [⟨["plugins"], .call replaceFilesPlugin.name [.array replacements], .append⟩],
    [replaceFilesPlugin]⟩

/-- Stages the migration for every project that needs it. -/
def updateViteBuildConfig (config : Config.ToolConfig) : TreeStep MigrationReport := do
  let registry ← TreeStep.query fun t => Registry.build t config
  let mut owners : List String := []
  let mut targets : List PatchTarget := []
  for project in registry.projects do
    let some build := viteBuildTarget project | continue
    let some outputPath := build.optionString "outputPath" | continue
    let some file ← TreeStep.query fun t => findViteConfig t project.root | continue
    targets := targets ++ [{ file, locator := .defaultExport (some "defineConfig")
                             patch := buildPatch project.root outputPath (fileReplacements build) }]
    owners := owners ++ [project.name]
  let results ← applyConfigPatches targets
  return (owners.zip results).foldl (fun (r : MigrationReport) (project, (_, result)) =>
    match result with
    | .ok patched =>
      if patched.changed then { r with updated := r.updated ++ [project] }
      else { r with unchanged := r.unchanged ++ [project] }
    | .error e => { r with failures := r.failures ++ [(project, e)] }) {}

end Monorepo.Codemod
