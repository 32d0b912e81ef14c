import Monorepo.Error

/-! The tool's settings: the log level, what a workspace looks like (its manifest and workspace
files, the directories to skip, the source extensions, the entries of a root project), where
applications and libraries live, and how a commit writes. Every setting has a default, a few
can be overridden from the environment, and `ToolConfig.validate` refuses settings that would
point outside the workspace. -/

namespace Monorepo.Config

/-- General settings. -/
structure General where
  logLevel : String := "info"
  deriving Repr, DecidableEq

/-- What the tool reads from a workspace. -/
structure WorkspaceSettings where
  manifestFile : String := "project.json"
  workspaceFile : String := "nx.json"
  tsconfigCandidates : List String := ["tsconfig.base.json", "tsconfig.json"]
  ignoredDirs : List String := ["node_modules", ".git", "dist", "tmp", ".nx", ".angular", "coverage"]
  sourceExtensions : List String := ["ts", "tsx", "js", "jsx", "mts", "cts", "mjs", "cjs"]
  outputDir : String := "dist"
  rootProjectEntries : List String :=
    ["src", "public", "project.json", "tsconfig.json", "tsconfig.app.json", "tsconfig.lib.json",
     "tsconfig.spec.json", ".babelrc", ".eslintrc.json", "eslint.config.js", "index.html",
     "vite.config.ts", "vite.config.mts", "vitest.config.ts", "jest.config.ts",
     "jest.config.app.ts", "jest.config.lib.ts", "webpack.config.js", "next.config.js",
     "next-env.d.ts", "nuxt.config.ts", "postcss.config.js", "tailwind.config.js"]
  deriving Repr, DecidableEq

/-- The directories that hold applications, libraries and packages. -/
structure Layout where
  appsDir : String := "apps"
  libsDir : String := "libs"
  packagesDir : String := "packages"
  deriving Repr, DecidableEq

/-- How staged changes are written. -/
structure CommitSettings where
  atomicWrites : Bool := true
  pruneEmptyDirs : Bool := true
  deriving Repr, DecidableEq

/-- All settings of the tool. -/
structure ToolConfig where
  general : General := {}
  workspace : WorkspaceSettings := {}
  layout : Layout := {}
  commit : CommitSettings := {}
  deriving Repr, DecidableEq

def fileName : String := "monotree.toml"

def pathVariable : String := "MONOTREE_CONFIG_PATH"

def environmentVariables : List String :=
  [pathVariable, "MONOTREE_LOG_LEVEL", "MONOTREE_APPS_DIR", "MONOTREE_LIBS_DIR",
   "MONOTREE_PACKAGES_DIR", "MONOTREE_OUTPUT_DIR"]

def logLevels : List String := ["trace", "debug", "info", "warn", "error"]

/-- Whether a directory setting stays inside the workspace: not empty, not absolute, and with
no `..` segment. -/
def isWorkspaceDir (dir : String) : Bool :=
  !dir.isEmpty && !dir.startsWith "/" && !((dir.splitOn "/").any (· == ".."))

namespace ToolConfig

/-- Takes overrides from environment variables, looked up by `lookup`. -/
def withEnvironment (c : ToolConfig) (lookup : String → Option String) : ToolConfig :=
  let c := match lookup "MONOTREE_LOG_LEVEL" with
    | some v => { c with general := { logLevel := v } } | none => c
  let c := match lookup "MONOTREE_APPS_DIR" with
    | some v => { c with layout := { c.layout with appsDir := v } } | none => c
  let c := match lookup "MONOTREE_LIBS_DIR" with
    | some v => { c with layout := { c.layout with libsDir := v } } | none => c
  let c := match lookup "MONOTREE_PACKAGES_DIR" with
    | some v => { c with layout := { c.layout with packagesDir := v } } | none => c
  match lookup "MONOTREE_OUTPUT_DIR" with
    | some v => { c with workspace := { c.workspace with outputDir := v } } | none => c

/-- Checks the log level, the manifest name, and then each directory setting in turn. -/
def validate (c : ToolConfig) : Outcome Unit := do
  if !logLevels.contains c.general.logLevel then
    throw (.config (s!"Invalid log level '{c.general.logLevel}'. Must be one of: " ++
      ", ".intercalate logLevels))
  if c.workspace.manifestFile.isEmpty then throw (.config "manifest_file must not be empty")
  for (key, dir) in [("apps_dir", c.layout.appsDir), ("libs_dir", c.layout.libsDir),
      ("packages_dir", c.layout.packagesDir), ("output_dir", c.workspace.outputDir)] do
    if !isWorkspaceDir dir then
      throw (.config s!"{key} must be a non-empty workspace-relative directory, got '{dir}'")

/-- Whether a directory name is skipped when walking a workspace. -/
def isIgnoredDir (c : ToolConfig) (name : String) : Bool := c.workspace.ignoredDirs.contains name

def isSourceExtension (c : ToolConfig) (ext : String) : Bool :=
  c.workspace.sourceExtensions.contains ext

end ToolConfig

end Monorepo.Config
