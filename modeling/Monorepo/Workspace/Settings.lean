import Monorepo.Workspace.Manifest

/-! The workspace-wide files: the workspace configuration (named inputs, the default project and
whatever else it holds) and the path mappings of the first TypeScript configuration that exists
among the candidates, which tie import paths to files. -/

namespace Monorepo.Workspace

open Json

/-- The workspace configuration file. -/
structure WorkspaceFile where
  namedInputs : Option (List (String × List Value)) := none
  defaultProject : Option String := none
  extensions : Members := []

namespace WorkspaceFile

/-- Reads the workspace configuration document. -/
def decode : Value → Except String WorkspaceFile
  | .object ms =>
    ms.foldlM (fun (w : WorkspaceFile) (k, v) =>
      match k with
      | "namedInputs" =>
        match v with
        | .null => return { w with namedInputs := none }
        | .object ns => do
          let ns ← ns.mapM fun (name, inputs) =>
            match inputs with
            | .array xs => .ok (name, xs)
            | other => .error (invalidType other "a sequence")
          return { w with namedInputs := some ns }
        | other => .error (invalidType other "a map")
      | "defaultProject" => return { w with defaultProject := ← optionalString v }
      | _ => return { w with extensions := Members.insert w.extensions k v }) {}
  | v => .error (invalidType v "struct WorkspaceConfiguration")

/-- The configuration as JSON. -/
def toValue (w : WorkspaceFile) : Value :=
  let known : Members :=
    (w.namedInputs.map fun ns =>
      [("namedInputs", Value.object (ns.map fun (n, xs) => (n, Value.array xs)))]).getD [] ++
    (w.defaultProject.map fun d => [("defaultProject", Value.string d)]).getD []
  .object (w.extensions.foldl (fun acc (k, v) => Members.insert acc k v) known)

def path (settings : Config.WorkspaceSettings) : Outcome Path := Path.parse settings.workspaceFile

/-- Reads the workspace configuration; an absent file is an empty configuration. -/
def read (t : StagedTree) (settings : Config.WorkspaceSettings) : Outcome WorkspaceFile := do
  let p ← path settings
  if !t.isFile p then return {}
  t.readJsonAs p decode

def write (w : WorkspaceFile) (t : StagedTree) (settings : Config.WorkspaceSettings) :
    Outcome StagedTree := do
  t.writeJson (← path settings) w.toValue

end WorkspaceFile

/-- Import paths mapped to files, from the first TypeScript configuration found. -/
structure PathMappings where
  file : Option Path := none
  entries : List (String × List String) := []

/-- The workspace path of a mapping target: leading `./` dropped, as often as it stands. -/
def mappingTargetPath (target : String) : Outcome Path :=
  let rec strip (cs : List Char) : List Char :=
    match cs with
    | '.' :: '/' :: rest => strip rest
    | _ => cs
  Path.parse (String.ofList (strip target.toList))

namespace PathMappings

/-- Reads the mappings of the first candidate file that exists; none when no candidate does. -/
def read (t : StagedTree) (settings : Config.WorkspaceSettings) : Outcome PathMappings := do
  for candidate in settings.tsconfigCandidates do
    let p ← Path.parse candidate
    if t.isFile p then
      let document ← t.readJson p
      let entries := match document.pointer? "/compilerOptions/paths" with
        | some (.object paths) => paths.map fun (key, targets) =>
          (key, match targets with
            | .array items => items.filterMap Value.asString?
            | _ => [])
        | _ => []
      return { file := some p, entries }
  return {}

def get? (m : PathMappings) (key : String) : Option (List String) :=
  (m.entries.find? (·.1 == key)).map (·.2)

def containsKey (m : PathMappings) (key : String) : Bool := m.entries.any (·.1 == key)

def isEmpty (m : PathMappings) : Bool := m.entries.isEmpty

/-- The longest mapped import path without a wildcard that a specifier is, or lies below; of
equally long ones the last. -/
def keyForSpecifier (m : PathMappings) (specifier : String) : Option String :=
  let candidates := m.entries.map (·.1) |>.filter fun key =>
    !key.contains '*' &&
      (specifier == key || (specifier.startsWith key &&
        (String.ofList (specifier.toList.drop key.length)).startsWith "/"))
  candidates.foldl (fun best key =>
    match best with
    | some b => if key.length ≥ b.length then some key else some b
    | none => some key) none

end PathMappings

end Monorepo.Workspace
