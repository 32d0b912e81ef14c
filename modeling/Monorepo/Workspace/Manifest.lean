import Monorepo.Tree.Json
import Monorepo.Json.Expect
import Monorepo.Json.Pointer

/-! Project manifests: the JSON file in a project's directory that names the project and lists
its targets. The fields the tool knows are typed; every other key is kept, in order, so that a
manifest written back keeps what the tool does not understand. A manifest's root is always the
directory it was read from, and a project without a name takes its directory's name. Writing over
an existing manifest merges into it, keeping its layout and leaving out a root or a name the file
did not spell out. -/

namespace Monorepo.Workspace

open Json

/-- The kind of a project. -/
inductive ProjectType where
  | application
  | library
  deriving DecidableEq, Repr

def ProjectType.name : ProjectType → String
  | .application => "application"
  | .library => "library"

/-- The project kind of a name. -/
def ProjectType.ofName? : String → Option ProjectType
  | "application" => some .application
  | "library" => some .library
  | _ => none

/-- A target of a project: how to run it and with which options. -/
structure Target where
  executor : Option String := none
  options : Option Members := none
  configurations : Option (List (String × Members)) := none
  extensions : Members := []

/-- A project manifest. -/
structure Manifest where
  name : String := ""
  root : Path := Path.root
  sourceRoot : Option String := none
  projectType : Option ProjectType := none
  targets : List (String × Target) := []
  extensions : Members := []

/-- An optional string: null is absent. -/
def optionalString : Value → Except String (Option String)
  | .null => .ok none
  | .string s => .ok (some s)
  | v => .error (invalidType v "a string")

/-- An optional object: null is absent. -/
def optionalMap : Value → Except String (Option Members)
  | .null => .ok none
  | .object ms => .ok (some ms)
  | v => .error (invalidType v "a map")

/-- The project kind written in a manifest. -/
def readProjectType : Value → Except String (Option ProjectType)
  | .null => .ok none
  | .string s =>
    match ProjectType.ofName? s with
    | some t => .ok (some t)
    | none => .error (unknownVariant s ["application", "library"])
  | .object [(s, content)] =>
    match ProjectType.ofName? s with
    | some t => match content with
      | .null => .ok (some t)
      | v => .error (invalidType v "unit")
    | none => .error (unknownVariant s ["application", "library"])
  | .object _ => .error "invalid value: map, expected map with a single key"
  | v => .error (invalidType v "string or map")

/-- The configurations of a target: null is absent, and each configuration is a map. -/
def readConfigurations : Value → Except String (Option (List (String × Members)))
  | .null => .ok none
  | .object cs => do
    let cs ← cs.mapM fun (name, c) => return (name, ← c.expectMap)
    return some cs
  | other => .error (invalidType other "a map")

/-- Reads one member of a target into the target read so far: a known key sets its field, any
other key is kept, in order, with the target's other members. -/
def Target.decodeMember (t : Target) : String × Value → Except String Target
  | (k, v) =>
    match k with
    | "executor" => return { t with executor := ← optionalString v }
    | "options" => return { t with options := ← optionalMap v }
    | "configurations" => return { t with configurations := ← readConfigurations v }
    | _ => return { t with extensions := Members.insert t.extensions k v }

def Target.decode : Value → Except String Target
  | .object ms => ms.foldlM Target.decodeMember {}
  | v => .error (invalidType v "struct TargetConfiguration")

/-- The root written in a manifest: a path. -/
def readRoot (v : Value) : Except String Path := do
  let text ← v.expectString
  match Path.parse text with
  | .ok p => return p
  | .error e => .error e.message

/-- The targets of a manifest: a map of targets, in order. -/
def readTargets (v : Value) : Except String (List (String × Target)) := do
  let ts ← v.expectMap
  ts.mapM fun (name, t) => return (name, ← Target.decode t)

/-- Reads one member of a manifest into the manifest read so far: a known key sets its field, any
other key is kept, in order, with the manifest's other members. -/
def Manifest.decodeMember (m : Manifest) : String × Value → Except String Manifest
  | (k, v) =>
    match k with
    | "name" => return { m with name := ← v.expectString }
    | "root" => return { m with root := ← readRoot v }
    | "sourceRoot" => return { m with sourceRoot := ← optionalString v }
    | "projectType" => return { m with projectType := ← readProjectType v }
    | "targets" => return { m with targets := ← readTargets v }
    | _ => return { m with extensions := Members.insert m.extensions k v }

def Manifest.decode : Value → Except String Manifest
  | .object ms => ms.foldlM Manifest.decodeMember {}
  | v => .error (invalidType v "struct ProjectConfiguration")

/-- A target as JSON: the known fields that are set, then the others. -/
def Target.toValue (t : Target) : Value :=
  let known : Members :=
    (t.executor.map fun e => [("executor", Value.string e)]).getD [] ++
    (t.options.map fun o => [("options", Value.object o)]).getD [] ++
    (t.configurations.map fun cs =>
      [("configurations", Value.object (cs.map fun (n, c) => (n, Value.object c)))]).getD []
  .object (t.extensions.foldl (fun acc (k, v) => Members.insert acc k v) known)

/-- The members a manifest's known fields are written as: name and root, then the other known
fields that are set. -/
def Manifest.knownMembers (m : Manifest) : Members :=
  [("name", .string m.name), ("root", .string m.root.render)] ++
  (m.sourceRoot.map fun s => [("sourceRoot", Value.string s)]).getD [] ++
  (m.projectType.map fun t => [("projectType", Value.string t.name)]).getD [] ++
  (if m.targets.isEmpty then []
   else [("targets", Value.object (m.targets.map fun (n, t) => (n, t.toValue)))])

def Manifest.toMembers (m : Manifest) : Members :=
  m.extensions.foldl (fun acc (k, v) => Members.insert acc k v) m.knownMembers

def Target.optionString (t : Target) (key : String) : Option String :=
  (t.options.bind fun o => Members.get? o key).bind Value.asString?

namespace Manifest

def pathIn (dir : Path) (settings : Config.WorkspaceSettings) : Outcome Path :=
  dir.join settings.manifestFile

def path (m : Manifest) (settings : Config.WorkspaceSettings) : Outcome Path :=
  pathIn m.root settings

/-- Reads the manifest in a directory: its root becomes that directory, and a missing name
becomes the directory's name. -/
def read (t : StagedTree) (dir : Path) (settings : Config.WorkspaceSettings) : Outcome Manifest := do
  let p ← pathIn dir settings
  let m ← t.readJsonAs p Manifest.decode
  let m := { m with root := dir }
  if m.name.isEmpty then
    match dir.fileName with
    | some n => return { m with name := n }
    | none => throw (.parse p.render "root project has no name")
  else return m

/-- Stages the manifest: in full for a new file, else merged into the existing document. -/
def write (m : Manifest) (t : StagedTree) (settings : Config.WorkspaceSettings) :
    Outcome StagedTree := do
  let p ← m.path settings
  let updated := m.toMembers
  if !t.isFile p then return ← t.writeJson p (.object updated)
  let document ← t.readJsonAs p Value.expectMap
  let updated :=
    if Members.contains document "root" then updated else (Members.swapRemove updated "root").2
  let updated :=
    if !Members.contains document "name" && m.root.fileName == some m.name then
      (Members.swapRemove updated "name").2
    else updated
  t.writeJson p (.object (Members.mergeInPlace document updated))

end Manifest

end Monorepo.Workspace
