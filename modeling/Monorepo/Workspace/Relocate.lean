import Monorepo.Workspace.Reference
import Monorepo.Workspace.ImportPath

/-! Moving a project to a new root, optionally under a new name and import path. A move is
refused when the destination is the root, lies inside the project, overlaps another project or
an existing path, or when the new name is taken. The move and its references are decided on the
tree as it stands; then every reference is rewritten, the files move, and last the project's own
manifest is rewritten to its new place. -/

namespace Monorepo.Workspace

/-- What to move and how. -/
structure RelocateRequest where
  project : String
  destination : String
  newName : Option String := none
  updateReferences : Bool := true
  updateImportPath : Bool := false
  importPath : Option String := none

/-- What a move did. -/
structure RelocationReport where
  project : String
  newName : String
  oldRoot : Path
  newRoot : Path
  filesMoved : Nat
  references : List Reference

/-- Checks that a move is allowed. -/
def validateMove (t : StagedTree) (r : Registry) (project : Manifest) (destination : Path)
    (newName : String) : Outcome Unit := do
  if destination.isRoot then
    throw (.invalidInput s!"cannot move project '{project.name}' to the workspace root")
  if !project.root.isRoot && destination != project.root && destination.startsWith project.root then
    throw (.invalidInput
      s!"cannot move project '{project.name}' into its own directory '{destination.render}'")
  for other in r.projects.filter (·.name != project.name) do
    let overlaps := !other.root.isRoot &&
      (destination.startsWith other.root || other.root.startsWith destination)
    if overlaps then
      throw (.destinationCollision project.name destination.render other.name)
  if destination != project.root && t.contains destination then
    throw (.destinationCollision project.name destination.render
      ("existing path " ++ destination.render))
  if newName != project.name && (r.get? newName).isSome then throw (.projectExists newName)

/-- Rewrites the moved project's own manifest: name, root, and the paths in its targets. -/
def rewriteOwnManifest (m : Manifest) (mv : Move) : Manifest :=
  let rewrite := mv.rewritePathString
  let rewriteAll (ms : Json.Members) : Json.Members :=
    ms.map fun (k, v) => (k, (Json.Value.rewriteStrings rewrite v).1)
  let sourceRoot := match m.sourceRoot.bind rewrite with
    | some s => some s
    | none => m.sourceRoot
  let targets := m.targets.map fun (name, target) =>
    (name, { target with
      options := target.options.map rewriteAll
      configurations := target.configurations.map fun cs => cs.map fun (n, c) => (n, rewriteAll c)
      extensions := rewriteAll target.extensions })
  { m with name := mv.newName, root := mv.newRoot, sourceRoot, targets }

/-- What a move decides before it touches the tree: the plan of the move, the references to
rewrite and where the project's manifest lies. -/
structure RelocationPlan where
  move : Move
  references : List Reference
  manifestPath : Path

/-- Decides a move on the tree as it stands: finds the project, checks the destination, plans
the move and collects the references to rewrite. Nothing is staged yet. -/
def planRelocation (config : Config.ToolConfig) (request : RelocateRequest) (t : StagedTree) :
    Outcome RelocationPlan := do
  let settings := config.workspace
  let registry ← Registry.build t config
  let project ← registry.require request.project
  let destination ← Path.parse request.destination
  let newName := request.newName.getD project.name
  validateMove t registry project destination newName
  let workspace ← WorkspaceFile.read t settings
  let mappings ← PathMappings.read t settings
  let index : ReferenceIndex := { registry, workspace, mappings, config }
  let mv ← Move.plan registry t config project.name newName destination
  let oldImportPath := index.importPathOf mv
  let newImportPath :=
    if request.updateImportPath then
      match request.importPath with
      | some p => some p
      | none => oldImportPath.map fun old => deriveImportPath old newName
    else oldImportPath
  let mv := { mv with oldImportPath, newImportPath }
  let references ← index.find t mv request.updateReferences
  let manifestPath ← project.path settings
  return { move := mv, references, manifestPath }

/-- Moves each file that has a place below the new root, one after another. -/
def moveFiles (mv : Move) (files : List Path) : TreeStep Unit := do
  for file in files do
    if let some target := mv.relocate file then StagedTree.rename file target

/-- Rewrites the moved project's manifest where the move took it. -/
def rewriteMovedManifest (settings : Config.WorkspaceSettings) (mv : Move) (manifestPath : Path) :
    TreeStep Unit := do
  let some newManifestPath := mv.relocate manifestPath
    | throw (.notFound "Manifest" manifestPath.render)
  let some newManifestDir := newManifestPath.parent
    | throw (.invalidPath newManifestPath.render "no parent")
  let manifest ← TreeStep.query fun t => Manifest.read t newManifestDir settings
  TreeStep.update fun t => (rewriteOwnManifest manifest mv).write t settings

/-- Carries out a planned move: rewrites the references in place, moves the files unless the
root stays, then rewrites the manifest. -/
def executeRelocation (settings : Config.WorkspaceSettings) (plan : RelocationPlan) :
    TreeStep RelocationReport := do
  let mv := plan.move
  applyReferences plan.references
  let files ← if mv.oldRoot == mv.newRoot then pure [] else TreeStep.query fun t => mv.files t
  moveFiles mv files
  rewriteMovedManifest settings mv plan.manifestPath
  return { project := mv.oldName, newName := mv.newName, oldRoot := mv.oldRoot
           newRoot := mv.newRoot, filesMoved := files.length, references := plan.references }

/-- Moves a project as the request says: plans the move on the tree as it stands, then carries
it out. -/
def relocate (config : Config.ToolConfig) (request : RelocateRequest) :
    TreeStep RelocationReport := do
  let plan ← TreeStep.query (planRelocation config request)
  executeRelocation config.workspace plan

end Monorepo.Workspace
