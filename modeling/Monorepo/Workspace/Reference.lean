import Monorepo.Workspace.Move
import Monorepo.Script.Specifier

/-! References to a moving project and how they are rewritten. Imports in source files, path
mappings of the TypeScript configuration, path options of other projects' targets, the default
project, implicit dependencies, and relative paths in JSON configuration can all point at the
project; each reference found records its file, its old and new text, and where it stands: a
byte range of a source file, or a JSON value or key at a pointer. -/

namespace Monorepo.Workspace

open Json

/-- What kind of text a reference is. -/
inductive ReferenceKind where
  | importSpecifier
  | pathMapping
  | defaultProject
  | targetOption
  | implicitDependency
  | configPath
  deriving DecidableEq, Repr

/-- The label of a reference kind. -/
def ReferenceKind.label : ReferenceKind → String
  | .importSpecifier => "import"
  | .pathMapping => "path-mapping"
  | .defaultProject => "default-project"
  | .targetOption => "target-option"
  | .implicitDependency => "implicit-dependency"
  | .configPath => "config-path"

/-- Where a reference stands in its file. -/
inductive Location where
  | span (start stop : Nat)
  | jsonValue (pointer : String)
  | jsonKey (pointer : String)
  deriving DecidableEq, Repr

/-- One reference and its rewrite. -/
structure Reference where
  sourceFile : Path
  kind : ReferenceKind
  oldValue : String
  newValue : String
  location : Location
  deriving DecidableEq, Repr

/-- A reference as one line: file, kind, old and new text. -/
def Reference.describe (r : Reference) : String :=
  s!"{r.sourceFile.render} [{r.kind.label}] '{r.oldValue}' -> '{r.newValue}'"

def trimTrailingSlashes (s : String) : String :=
  String.ofList (s.toList.reverse.dropWhile (· == '/')).reverse

def beforeStar (s : String) : String := String.ofList (s.toList.takeWhile (· != '*'))

def afterPrefix (s pre : String) : Option String :=
  if s.startsWith pre then some (String.ofList (s.toList.drop pre.length)) else none

/-- What the reference search knows about the workspace. -/
structure ReferenceIndex where
  registry : Registry
  workspace : WorkspaceFile
  mappings : PathMappings
  config : Config.ToolConfig

namespace ReferenceIndex

/-- The path with a source extension added to its file name. -/
def withExtension (p : Path) (ext : String) : Option Path :=
  match p.fileName, p.parent with
  | some name, some parent => (parent.join (name ++ "." ++ ext)).toOption
  | _, _ => none

/-- Whether a path moves, as it stands or as a module named without its extension. -/
def movesWith (ix : ReferenceIndex) (m : Move) (p : Path) : Bool :=
  m.contains p || ix.config.workspace.sourceExtensions.any fun ext =>
    match withExtension p ext with
    | some candidate => m.contains candidate
    | none => false

/-- Where a path or module lands; a module keeps its extensionless name. -/
def relocateModule (ix : ReferenceIndex) (m : Move) (p : Path) : Option Path :=
  match m.relocate p with
  | some q => some q
  | none =>
    match p.fileName with
    | none => none
    | some name =>
      let found := ix.config.workspace.sourceExtensions.findSome? fun ext =>
        (withExtension p ext).bind m.relocate
      found.bind fun q => q.parent.bind fun dir => (dir.join name).toOption

/-- Whether every target of a mapping moves with the project. -/
def targetsMoveWith (ix : ReferenceIndex) (m : Move) (targets : List String) : Bool :=
  !targets.isEmpty && targets.all fun target =>
    match mappingTargetPath (trimTrailingSlashes (beforeStar target)) with
    | .ok p => !p.isRoot && ix.movesWith m p
    | .error _ => false

/-- The import path that maps only to files of the moving project. -/
def importPathOf (ix : ReferenceIndex) (m : Move) : Option String :=
  (ix.mappings.entries.find? fun (key, targets) =>
    !key.contains '*' && !targets.isEmpty && targets.all fun target =>
      match mappingTargetPath target with
      | .ok p => ix.movesWith m p
      | .error _ => false).map (·.1)

/-- A wildcard mapping whose fixed part holds the moving project but not its destination cannot
be rewritten. -/
def checkWildcardTarget (ix : ReferenceIndex) (file : Path) (key fixed : String) (m : Move) :
    Outcome Unit :=
  match mappingTargetPath (trimTrailingSlashes fixed) with
  | .error _ => .ok ()
  | .ok dir =>
    if m.oldRoot.isRoot || !m.oldRoot.startsWith dir || m.newRoot.startsWith dir then .ok ()
    else
      let candidates := (ix.registry.projects.filter fun p =>
        !p.root.isRoot && p.root.startsWith dir).map (·.name)
      .error (.ambiguousReference file.render key candidates)

/-- References in the path mappings. -/
def pathMappingReferences (ix : ReferenceIndex) (m : Move) : Outcome (List Reference) := do
  let some file := ix.mappings.file | return []
  let mut refs : List Reference := []
  for (key, targets) in ix.mappings.entries do
    let keyPointer := "/compilerOptions/paths/" ++ escapeToken key
    let mut owners : List String := []
    for (target, i) in targets.zipIdx do
      if target.contains '*' then
        ix.checkWildcardTarget file key (beforeStar target) m
        continue
      let .ok p := mappingTargetPath target | continue
      if let some owner := ix.registry.projectForPath p then
        if !owners.contains owner.name then owners := owners ++ [owner.name]
      if let some newPath := ix.relocateModule m p then
        let pre := if target.startsWith "./" then "./" else ""
        refs := refs ++ [{ sourceFile := file, kind := .pathMapping, oldValue := target
                           newValue := pre ++ newPath.render
                           location := .jsonValue (keyPointer ++ "/" ++ toString i) }]
    if owners.contains m.oldName && owners.length > 1 then
      throw (.ambiguousReference file.render key (owners.mergeSort fun a b => a ≤ b))
    if let (some old, some new) := (m.oldImportPath, m.newImportPath) then
      if !ix.targetsMoveWith m targets then continue
      let renamed :=
        if key == old then some new
        else match afterPrefix key old with
          | some rest => if rest.startsWith "/" then some (new ++ rest) else none
          | none => none
      if let some newKey := renamed then
        if newKey != key then
          if ix.mappings.containsKey newKey then
            throw (.invalidInput s!"import path '{newKey}' is already mapped in {file.render}")
          refs := refs ++ [{ sourceFile := file, kind := .pathMapping, oldValue := key
                             newValue := newKey, location := .jsonKey "/compilerOptions/paths" }]
  return refs

/-- Path options of other projects' targets that point into the move. -/
def targetOptionReferences (ix : ReferenceIndex) (t : StagedTree) (m : Move) :
    Outcome (List Reference) :=
  (ix.registry.projects.filter (·.name != m.oldName)).flatMapM fun project => do
    let manifest ← project.path ix.config.workspace
    let document ← t.readJson manifest
    let some targets := document.field? "targets" | return []
    return (targets.strings "/targets").filterMap fun (pointer, value) =>
      (m.rewritePathString value).map fun new =>
        { sourceFile := manifest, kind := .targetOption, oldValue := value, newValue := new
          location := .jsonValue pointer }

/-- The reference the implicit dependency at index `i` of a manifest makes to the moving
project: its name, or its name behind `!`, which excludes it. -/
def implicitDependencyReference (m : Move) (manifest : Path) : Value × Nat → Option Reference
  | (.string d, i) =>
    let (negation, name) := match afterPrefix d "!" with
      | some n => ("!", n)
      | none => ("", d)
    if name == m.oldName then
      some { sourceFile := manifest, kind := .implicitDependency, oldValue := d
             newValue := negation ++ m.newName
             location := .jsonValue ("/implicitDependencies/" ++ toString i) }
    else none
  | _ => none

/-- References by project name: the default project and implicit dependencies. -/
def nameReferences (ix : ReferenceIndex) (t : StagedTree) (m : Move) : Outcome (List Reference) := do
  let first ←
    bif ix.workspace.defaultProject == some m.oldName then do
      let file ← WorkspaceFile.path ix.config.workspace
      pure [{ sourceFile := file, kind := .defaultProject, oldValue := m.oldName
              newValue := m.newName, location := .jsonValue "/defaultProject" : Reference }]
    else pure []
  let rest ← (ix.registry.projects.filter (·.name != m.oldName)).flatMapM fun project => do
    let manifest ← project.path ix.config.workspace
    let document ← t.readJson manifest
    let some (.array deps) := document.field? "implicitDependencies" | return []
    return deps.zipIdx.filterMap (implicitDependencyReference m manifest)
  return first ++ rest

/-- The new text of a relative path in `file` when the file or its target moves. -/
def rewriteRelative (ix : ReferenceIndex) (file : Path) (value : String) (m : Move)
    (moving : Bool) : Option String := do
  let dir ← file.parent
  let target ← (dir.join value).toOption
  let trailing := if value.endsWith "/" && value.utf8ByteSize > 1 then "/" else ""
  let (newDir, newTarget) ←
    match moving, ix.movesWith m target with
    | false, true => (ix.relocateModule m target).map (dir, ·)
    | true, false => (m.relocate file).bind fun q => q.parent.map (·, target)
    | _, _ => none
  let relative := Script.Specifier.asRelative (newTarget.relativeTo newDir)
  let newValue := trimTrailingSlashes relative ++ trailing
  if newValue != value then some newValue else none

/-- The new text of a bare specifier: through the import path, or as a workspace path. -/
def rewriteBare (ix : ReferenceIndex) (value : String) (m : Move) : Option String :=
  let viaImportPath : Option String :=
    match m.oldImportPath, m.newImportPath with
    | some old, some new =>
      let owned := match ix.mappings.keyForSpecifier value with
        | some key =>
          (key == old || ((afterPrefix key old).map (·.startsWith "/")).getD false) &&
            ((ix.mappings.get? key).map (ix.targetsMoveWith m)).getD false
        | none => false
      if old != new && owned then some (new ++ String.ofList (value.toList.drop old.length))
      else none
    | _, _ => none
  match viaImportPath with
  | some v => some v
  | none =>
    if m.oldRoot.isRoot || value.startsWith "@" then none
    else match Path.parse value with
      | .ok p => (ix.relocateModule m p).map Path.render
      | .error _ => none

/-- Relative paths in a JSON file: every file that moves, and the TypeScript configurations of
the others. -/
def jsonFileReferences (ix : ReferenceIndex) (t : StagedTree) (file : Path) (m : Move)
    (moving : Bool) : Outcome (List Reference) := do
  let isTsconfig := match file.fileName with
    | some name => name.startsWith "tsconfig"
    | none => false
  if !moving && !isTsconfig then return []
  let document ← t.readJson file
  let isMappingsFile := ix.mappings.file == some file
  return (document.strings "").filterMap fun (pointer, value) =>
    if !Script.Specifier.isRelative value ||
        (isMappingsFile && pointer.startsWith "/compilerOptions/paths/") then none
    else (ix.rewriteRelative file value m moving).map fun new =>
      { sourceFile := file, kind := .configPath, oldValue := value, newValue := new
        location := .jsonValue pointer }

/-- Module specifiers of a source file. -/
def sourceFileReferences (ix : ReferenceIndex) (t : StagedTree) (file : Path) (m : Move)
    (moving external : Bool) : Outcome (List Reference) := do
  let some language := file.extension.bind Script.Language.ofExtension | return []
  let .ok content := t.readToString file | return []
  let specs ← Script.scanSpecifiers language content file.render
  return specs.filterMap fun spec =>
    let new :=
      if spec.relative then ix.rewriteRelative file spec.value m moving
      else if external then ix.rewriteBare spec.value m
      else none
    new.map fun n =>
      { sourceFile := file, kind := .importSpecifier, oldValue := spec.value, newValue := n
        location := .span spec.start spec.stop }

/-- The references in one file of the walk: relative paths in a JSON file and module specifiers
in a source file, searched in the files that move and, with `external`, in all others too. -/
def fileReferences (ix : ReferenceIndex) (t : StagedTree) (m : Move) (external : Bool)
    (file : Path) : Outcome (List Reference) := do
  let moving := m.contains file
  if !moving && !external then return []
  match file.extension with
  | some "json" => ix.jsonFileReferences t file m moving
  | some ext =>
    if ix.config.isSourceExtension ext then ix.sourceFileReferences t file m moving external
    else return []
  | none => return []

/-- Every reference to the moving project; `external` also searches outside it. -/
def find (ix : ReferenceIndex) (t : StagedTree) (m : Move) (external : Bool) :
    Outcome (List Reference) := do
  let mapped ← bif external then ix.pathMappingReferences m else pure []
  let options ← bif external then ix.targetOptionReferences t m else pure []
  let named ← bif m.isRename then ix.nameReferences t m else pure []
  let files ← t.walkFilesWhere Path.root fun dir =>
    match dir.fileName with
    | some name => !ix.config.isIgnoredDir name
    | none => true
  let inFiles ← files.flatMapM (ix.fileReferences t m external)
  return mapped ++ options ++ named ++ inFiles

end ReferenceIndex

def replaceBytes (content : Utf8.Bytes) (start stop : Nat) (new : Utf8.Bytes) : Utf8.Bytes :=
  content.take start ++ new ++ content.drop stop

/-- Rewrites the spans of one source file, last first, checking each still holds its old text. -/
def applySpanEdits (t : StagedTree) (file : Path) (refs : List Reference) : Outcome StagedTree := do
  let content ← t.readToString file
  let startOf (r : Reference) : Nat := match r.location with
    | .span s _ => s
    | _ => 0
  let ordered := refs.mergeSort fun a b => startOf a ≥ startOf b
  let mut bytes := Utf8.encode content
  for r in ordered do
    let .span s e := r.location | continue
    if (bytes.drop s).take (e - s) != Utf8.encode r.oldValue then
      throw (.invalidInput s!"stale reference '{r.oldValue}' in {file.render} at {s}..{e}")
    bytes := replaceBytes bytes s e (Utf8.encode r.newValue)
  t.write file bytes

/-- A JSON value reference applied to a document: the string at its pointer becomes the new
value, where the old one still stands. -/
def Reference.applyValue (doc : Value) (r : Reference) : Value :=
  match r.location with
  | .jsonValue pointer =>
    match pointerTokens pointer with
    | some tokens =>
      if doc.pointer? pointer == some (.string r.oldValue) then
        Value.updateTokens (fun _ => .string r.newValue) tokens doc
      else doc
    | none => doc
  | _ => doc

/-- A JSON key reference applied to a document: the key is renamed in the object at its
pointer. -/
def Reference.applyKey (doc : Value) (r : Reference) : Value :=
  match r.location with
  | .jsonKey pointer => (doc.renameKey pointer r.oldValue r.newValue).2
  | _ => doc

/-- Rewrites the JSON values, then the JSON keys, of one file. -/
def applyJsonEdits (t : StagedTree) (file : Path) (refs : List Reference) : Outcome StagedTree := do
  let document ← t.readJson file
  let document := refs.foldl Reference.applyValue document
  let document := refs.foldl Reference.applyKey document
  t.writeJson file document

/-- Whether a reference is a byte range of a source file, not a place in a JSON document. -/
def Reference.isSpan (r : Reference) : Bool :=
  match r.location with
  | .span .. => true
  | _ => false

/-- Applies the references of one file: its source spans first, then its JSON edits. -/
def applyFileReferences (refs : List Reference) (file : Path) : TreeStep Unit := do
  let mine := refs.filter (·.sourceFile == file)
  let spans := mine.filter (·.isSpan)
  let json := mine.filter (!·.isSpan)
  if !spans.isEmpty then TreeStep.update fun t => applySpanEdits t file spans
  if !json.isEmpty then TreeStep.update fun t => applyJsonEdits t file json

def applyReferences (refs : List Reference) : TreeStep Unit := do
  let files := (refs.map (·.sourceFile)).mergeSort (fun a b => !(b.lt a)) |>.eraseDups
  for file in files do applyFileReferences refs file

end Monorepo.Workspace
