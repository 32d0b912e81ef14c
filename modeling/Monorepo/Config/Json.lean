import Monorepo.Config.Basic
import Monorepo.Json.Value

/-! The tool's settings as JSON, one object per section with the keys of the settings file. -/

namespace Monorepo.Config

open Json

def stringsValue (xs : List String) : Value := .array (xs.map .string)

/-- The settings as JSON. -/
def ToolConfig.toValue (c : ToolConfig) : Value :=
  .object [
    ("general", .object [("log_level", .string c.general.logLevel)]),
    ("workspace", .object [
      ("manifest_file", .string c.workspace.manifestFile),
      ("workspace_file", .string c.workspace.workspaceFile),
      ("tsconfig_candidates", stringsValue c.workspace.tsconfigCandidates),
      ("ignored_dirs", stringsValue c.workspace.ignoredDirs),
      ("source_extensions", stringsValue c.workspace.sourceExtensions),
      ("output_dir", .string c.workspace.outputDir),
      ("root_project_entries", stringsValue c.workspace.rootProjectEntries)]),
    ("layout", .object [
      ("apps_dir", .string c.layout.appsDir),
      ("libs_dir", .string c.layout.libsDir),
      ("packages_dir", .string c.layout.packagesDir)]),
    ("commit", .object [
      ("atomic_writes", .bool c.commit.atomicWrites),
      ("prune_empty_dirs", .bool c.commit.pruneEmptyDirs)])]

end Monorepo.Config
