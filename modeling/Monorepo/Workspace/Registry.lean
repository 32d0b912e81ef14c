import Monorepo.Workspace.Settings

/-! The projects of a workspace: every manifest found by walking the tree, skipping ignored
directories, in walk order. Two manifests may not declare the same name. -/

namespace Monorepo.Workspace

/-- The projects of a workspace, in the order they were found. -/
structure Registry where
  projects : List Manifest := []

namespace Registry

/-- Finds every project of the tree. -/
def build (t : StagedTree) (config : Config.ToolConfig) : Outcome Registry := do
  let files ← t.walkFilesWhere Path.root fun dir =>
    match dir.fileName with
    | some name => !config.isIgnoredDir name
    | none => true
  files.foldlM (fun (r : Registry) file => do
    if file.fileName != some config.workspace.manifestFile then return r
    let some dir := file.parent | return r
    let project ← Manifest.read t dir config.workspace
    match r.projects.find? (·.name == project.name) with
    | some existing =>
      throw (.invalidInput (s!"project name '{project.name}' is declared at both " ++
        s!"'{existing.root.render}' and '{project.root.render}'"))
    | none => return { projects := r.projects ++ [project] }) {}

def get? (r : Registry) (name : String) : Option Manifest := r.projects.find? (·.name == name)

/-- The project of a name, or a not-found failure. -/
def require (r : Registry) (name : String) : Outcome Manifest :=
  match r.get? name with
  | some p => .ok p
  | none => .error (.notFound "Project" name)

def names (r : Registry) : List String := r.projects.map (·.name)

def rootProject (r : Registry) : Option Manifest := r.projects.find? (·.root.isRoot)

/-- The project with the deepest root that holds a path; of equally deep ones the last. -/
def projectForPath (r : Registry) (p : Path) : Option Manifest :=
  (r.projects.filter fun m => p.startsWith m.root).foldl (fun best m =>
    match best with
    | some b => if m.root.length ≥ b.root.length then some m else some b
    | none => some m) none

def projectsBelow (r : Registry) (dir : Path) : List Manifest :=
  r.projects.filter fun m => m.root != dir && m.root.startsWith dir

/-- Pairs of projects, off the root, where one root holds the other, in order. -/
def overlappingRoots (r : Registry) : List (String × String) :=
  let nested := r.projects.filter (!·.root.isRoot)
  let rec pairs : List Manifest → List (String × String)
    | [] => []
    | a :: rest =>
      (rest.filterMap fun b =>
        if a.root.startsWith b.root || b.root.startsWith a.root then some (a.name, b.name)
        else none) ++ pairs rest
  pairs nested

end Registry

end Monorepo.Workspace
