import Monorepo.Workspace.Relocate

/-! Turning a single-root workspace into one with a directory per kind of project. When the
project at the root is an application, applications go to the applications directory and
everything else to the libraries directory; otherwise every project goes to the packages
directory. The root project moves first, under its name; the others keep their paths below the
chosen directory, and libraries also get a new import path. -/

namespace Monorepo.Workspace

/-- Where applications and libraries go. -/
structure LayoutScheme where
  appsDir : String
  libsDir : String
  deriving DecidableEq, Repr

namespace LayoutScheme

def forRootType (rootType : Option ProjectType) (layout : Config.Layout) : LayoutScheme :=
  if rootType == some .application then ⟨layout.appsDir, layout.libsDir⟩
  else ⟨layout.packagesDir, layout.packagesDir⟩

def directoryFor (s : LayoutScheme) (projectType : Option ProjectType) : String :=
  if projectType == some .application then s.appsDir else s.libsDir

/-- Where a project goes: `<dir>/<name>` for the root project, `<dir>/<root>` for the rest. -/
def destinationFor (s : LayoutScheme) (project : Manifest) : String :=
  let dir := s.directoryFor project.projectType
  if project.root.isRoot then dir ++ "/" ++ project.name else dir ++ "/" ++ project.root.render

end LayoutScheme

/-- What a conversion did. -/
structure ConversionReport where
  scheme : LayoutScheme
  relocations : List RelocationReport

def planConversionMove (s : LayoutScheme) (project : Manifest) : RelocateRequest :=
  { project := project.name, destination := s.destinationFor project
    updateImportPath := project.projectType == some .library }

/-- Moves every project under the layout its root project picks, the root project first. -/
def convertToMonorepo (config : Config.ToolConfig) : TreeStep ConversionReport := do
  let registry ← TreeStep.query fun t => Registry.build t config
  let some rootProject := registry.rootProject
    | throw (.invalidInput "workspace has no project at its root to convert")
  let scheme := LayoutScheme.forRootType rootProject.projectType config.layout
  let plan := planConversionMove scheme rootProject ::
    (registry.projects.filter (!·.root.isRoot)).map (planConversionMove scheme)
  let relocations ← plan.mapM (relocate config)
  return { scheme, relocations }

end Monorepo.Workspace
