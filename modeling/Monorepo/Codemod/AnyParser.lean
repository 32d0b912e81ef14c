import Monorepo.Codemod.ViteBuild

/-! The editing pipeline with the script parser as a parameter. An editor re-parses its text
after every edit, so what a patch does depends on the grammar; here the parser is an argument,
and statements about patching can assume of it only what the grammar documents. At
`Script.parse` every function below is the one of the same name without `With`. -/

namespace Monorepo.Codemod

open Monorepo.Script Monorepo.Json Monorepo.Workspace

/-- A parser of script sources: the syntax tree of a text in a language, or why it has none. -/
abbrev ScriptParser := Language → String → String → Outcome Parsed

namespace Editor

def loadWith (parse : ScriptParser) (text : String) (language : Language) (origin : String) :
    Outcome Editor := do
  return ⟨language, origin, ← parse language text origin⟩

/-- Applies one edit and parses the result with `parse`. -/
def applyWith (parse : ScriptParser) (e : Editor) (edit : TextEdit) : Outcome Editor := do
  let src := e.src
  let size := e.text.utf8ByteSize
  let boundary (b : Nat) : Bool := src.offsets.contains b
  let outside := edit.start > edit.stop || edit.stop > size || !boundary edit.start ||
    !boundary edit.stop
  bif outside then
    throw (.invalidInput ("edit range " ++ toString edit.start ++ ".." ++ toString edit.stop ++
      " is outside " ++ e.origin))
  else
    let updated := src.bytes 0 edit.start ++ edit.text ++ src.bytes edit.stop size
    return { e with parsed := ← parse e.language updated e.origin }

theorem loadWith_parse : loadWith Script.parse = load := rfl

theorem applyWith_parse : applyWith Script.parse = apply := rfl

end Editor

/-- Applies one entry, re-parsing with `parse` after its edit. -/
def applyEntryWith (parse : ScriptParser) : Nat → Editor → Locator → List String → PatchValue →
    PatchMode → Outcome (Editor × PatchOutcome)
  | 0, e, _, _, _, _ => .ok (e, .unchanged)
  | fuel + 1, e, l, path, value, mode => do
    match ← plan e l path value mode with
    | .done o => return (e, o)
    | .edit ed o => return (← e.applyWith parse ed, o)
    | .mergeKeys children =>
      let mut current := e
      let mut outcomes : List PatchOutcome := []
      for (k, child) in children do
        let (next, o) ← applyEntryWith parse fuel current l (path ++ [k]) (.literal child) mode
        current := next
        outcomes := outcomes ++ [o]
      return (current, PatchOutcome.combine outcomes)

theorem applyEntryWith_parse : applyEntryWith Script.parse = applyEntry := by
  funext fuel
  induction fuel with
  | zero => funext e l path value mode; rfl
  | succ fuel ih => funext e l path value mode; simp only [applyEntryWith, applyEntry, ih]; rfl

/-- Makes `name` imported from `module`, re-parsing with `parse`. -/
def ensureNamedImportWith (parse : ScriptParser) (e : Editor) (name module : String) :
    Outcome (Editor × PatchOutcome) :=
  match importEdit e.parsed name module with
  | none => .ok (e, .unchanged)
  | some edit => do return (← e.applyWith parse edit, .inserted)

theorem ensureNamedImportWith_parse : ensureNamedImportWith Script.parse = ensureNamedImport := rfl

/-- Applies a patch to the object `l` finds in a source text read by `parse`. -/
def patchSourceWith (parse : ScriptParser) (text : String) (language : Language) (origin : String)
    (l : Locator) (patch : ConfigPatch) : Outcome (String × List EntryOutcome) := do
  let mut editor ← Editor.loadWith parse text language origin
  let _ ← locate editor l
  let mut outcomes : List EntryOutcome := []
  for entry in patch.entries do
    if entry.path.any (·.isEmpty) then
      throw (.invalidInput ("invalid property path '" ++ entry.dottedPath ++ "'"))
    let (next, o) ← applyEntryWith parse (entry.value.depth + 1) editor l entry.path entry.value
      entry.mode
    editor := next
    outcomes := outcomes ++ [⟨entry.dottedPath, o⟩]
  let applied := patch.entries.isEmpty ||
    outcomes.any fun o => o.outcome != .skipped && o.outcome != .unmergeable
  if applied then
    for imp in patch.imports do
      let (next, o) ← ensureNamedImportWith parse editor imp.name imp.module
      editor := next
      outcomes := outcomes ++ [⟨"import " ++ imp.name, o⟩]
  return (editor.text, outcomes)

theorem patchSourceWith_parse : patchSourceWith Script.parse = patchSource := by
  funext text language origin l patch
  simp only [patchSourceWith, patchSource, applyEntryWith_parse, Editor.loadWith_parse,
    ensureNamedImportWith_parse]

/-- Patches one file of the tree, reading it with `parse`. -/
def applyConfigPatchWith (parse : ScriptParser) (t : StagedTree) (file : Path) (l : Locator)
    (patch : ConfigPatch) : Outcome (StagedTree × PatchReport) := do
  if !t.isFile file then throw (.notFound "File" file.render)
  let language ← Script.Language.forPath file
  let source ← t.readToString file
  let (updated, outcomes) ← patchSourceWith parse source language file.render l patch
  let changed := updated != source
  let t ← if changed then t.writeText file updated else pure t
  return (t, { file, outcomes, changed })

theorem applyConfigPatchWith_parse : applyConfigPatchWith Script.parse = applyConfigPatch := by
  funext t file l patch
  simp only [applyConfigPatchWith, applyConfigPatch, patchSourceWith_parse]

/-- Patches each target in turn with `parse`, keeping the result of each. -/
def applyConfigPatchesWith (parse : ScriptParser) (targets : List PatchTarget) :
    TreeStep (List (Path × Outcome PatchReport)) :=
  targets.mapM fun target => do
    match applyConfigPatchWith parse (← get) target.file target.locator target.patch with
    | .ok (t, report) => set t; return (target.file, .ok report)
    | .error e => return (target.file, .error e)

theorem applyConfigPatchesWith_parse : applyConfigPatchesWith Script.parse = applyConfigPatches := by
  funext targets
  unfold applyConfigPatchesWith
  rw [applyConfigPatchWith_parse]
  rfl

/-- The migration of vite build settings with `parse` reading the configuration files. -/
def updateViteBuildConfigWith (parse : ScriptParser) (config : Config.ToolConfig) :
    TreeStep MigrationReport := do
  let registry ← TreeStep.query fun t => Registry.build t config
  let mut owners : List String := []
  let mut targets : List PatchTarget := []
  for project in registry.projects do
    let some build := viteBuildTarget project | continue
    let some outputPath := build.optionString "outputPath" | continue
    let some file ← TreeStep.query fun t => findViteConfig t project.root | continue
    targets := targets ++ [{ file, locator := .defaultExport (some "defineConfig")
                             patch := buildPatch project.root outputPath (fileReplacements build) }]
    owners := owners ++ [project.name]
  let results ← applyConfigPatchesWith parse targets
  return (owners.zip results).foldl (fun (r : MigrationReport) (project, (_, result)) =>
    match result with
    | .ok patched =>
      if patched.changed then { r with updated := r.updated ++ [project] }
      else { r with unchanged := r.unchanged ++ [project] }
    | .error e => { r with failures := r.failures ++ [(project, e)] }) {}

theorem updateViteBuildConfigWith_parse :
    updateViteBuildConfigWith Script.parse = updateViteBuildConfig := by
  funext config
  unfold updateViteBuildConfigWith
  rw [applyConfigPatchesWith_parse]
  rfl

end Monorepo.Codemod
