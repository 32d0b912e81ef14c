import Monorepo.Workspace.Registry

/-! The plan of a project move: which paths move with the project and where each one lands.
A nested project's files move with their directory; a project at the workspace root moves only
the root entries the settings name, and nested projects below it stay. Path strings found in
configuration are rewritten by the same plan: segments spelling the old root become the new
root, and for a project at the root, paths into its entries and its output directory move. -/

namespace Monorepo.Workspace

/-- A planned move of one project. -/
structure Move where
  oldName : String
  newName : String
  oldRoot : Path
  newRoot : Path
  oldImportPath : Option String := none
  newImportPath : Option String := none
  /-- The paths that move: the root, or the listed entries of a root project. -/
  entries : List Path
  /-- Roots of the projects nested below the old root, which stay. -/
  excluded : List Path
  outputDir : String

namespace Move

/-- Plans the move of `project` to `newRoot` under the name `newName`. -/
def plan (r : Registry) (t : StagedTree) (config : Config.ToolConfig) (project newName : String)
    (newRoot : Path) : Outcome Move := do
  let oldRoot := (← r.require project).root
  let entries ←
    if oldRoot.isRoot then
      let kids ← t.children oldRoot
      pure (kids.filter fun child => match child.fileName with
        | some name => config.workspace.rootProjectEntries.contains name
        | none => false)
    else pure [oldRoot]
  return { oldName := project, newName, oldRoot, newRoot, entries
           excluded := (r.projectsBelow oldRoot).map (·.root)
           outputDir := config.workspace.outputDir }

def isRename (m : Move) : Bool := m.oldName != m.newName

def contains (m : Move) (p : Path) : Bool :=
  m.entries.any (p.startsWith ·) && !m.excluded.any (p.startsWith ·)

def relocate (m : Move) (p : Path) : Option Path :=
  if m.contains p then (p.stripPrefix m.oldRoot).map m.newRoot.append else none

def files (m : Move) (t : StagedTree) : Outcome (List Path) :=
  m.entries.flatMapM fun entry => do
    return (← t.walkFiles entry).filter m.contains

/-- Whether `/`-separated parts name a path below a nested project that stays. -/
def isExcludedTail (m : Move) (parts : List String) : Bool :=
  match Path.parse ("/".intercalate parts) with
  | .ok p => m.excluded.any (p.startsWith ·)
  | .error _ => false

/-- Replaces every run of parts spelling the old root, unless a nested project starts there. -/
def rewriteParts (m : Move) (old : List String) (new : String) :
    List String → Nat → List String × Bool
  | [], _ => ([], false)
  | part :: rest, fuel + 1 =>
    let here := part :: rest
    if old.isPrefixOf here && !m.isExcludedTail here then
      let (out, _) := rewriteParts m old new (here.drop old.length) fuel
      (new :: out, true)
    else
      let (out, changed) := rewriteParts m old new rest fuel
      (part :: out, changed)
  | here, 0 => (here, false)

/-- The parts of a text between its slashes, empty ones included. -/
def slashParts (value : String) : List String := (value.toList.splitOn '/').map String.ofList

/-- Rewrites a path string of a nested project's move. -/
def rewriteNestedPath (m : Move) (value : String) : Option String :=
  let parts := slashParts value
  let (out, changed) := m.rewriteParts m.oldRoot.segments m.newRoot.render parts (parts.length + 1)
  if changed then some ("/".intercalate out) else none

/-- Drops every leading `./`. -/
def stripDotSlash (s : String) : String :=
  let rec go : List Char → List Char
    | '.' :: '/' :: rest => go rest
    | cs => cs
  String.ofList (go s.toList)

/-- Rewrites a path string of a root project's move. -/
def rewriteRootPath (m : Move) (value : String) : Option String :=
  let hadDot := value.startsWith "./"
  let trimmed := stripDotSlash value
  let outputPrefix := m.outputDir ++ "/" ++ m.oldName
  if trimmed == outputPrefix || trimmed.startsWith (outputPrefix ++ "/") then
    let rest := String.ofList (trimmed.toList.drop outputPrefix.length)
    some (m.outputDir ++ "/" ++ m.newRoot.render ++ rest)
  else if trimmed.isEmpty ||
      @decide ("://".toList <:+: trimmed.toList) (List.instDecidableIsInfixOfDecidableEq _ _) then
    none
  else
    match Path.parse trimmed with
    | .error _ => none
    | .ok p =>
      if p.isRoot || !m.contains p then none
      else
        let relocated := (m.newRoot.append p).render
        let relocated := if trimmed.endsWith "/" then relocated ++ "/" else relocated
        some (if hadDot then "./" ++ relocated else relocated)

/-- Rewrites a path string found in configuration; none when it does not change. -/
def rewritePathString (m : Move) (value : String) : Option String :=
  if m.oldRoot.isRoot then m.rewriteRootPath value else m.rewriteNestedPath value

end Move

end Monorepo.Workspace
