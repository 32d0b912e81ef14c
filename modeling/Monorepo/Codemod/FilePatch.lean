import Monorepo.Codemod.Patch
import Monorepo.Tree.Basic

/-! Patching configuration files of a staged tree. A patch applies to the object a locator finds
in one source file and stages the new text when it differs. Patching several files records a
result per file and goes on past failures. -/

namespace Monorepo.Codemod

/-- What patching one file did. -/
structure PatchReport where
  file : Path
  outcomes : List EntryOutcome
  changed : Bool

/-- A file, the object in it, and the patch for that object. -/
structure PatchTarget where
  file : Path
  locator : Locator
  patch : ConfigPatch

/-- Patches one file of the tree. -/
def applyConfigPatch (t : StagedTree) (file : Path) (l : Locator) (patch : ConfigPatch) :
    Outcome (StagedTree × PatchReport) := do
  if !t.isFile file then throw (.notFound "File" file.render)
  let language ← Script.Language.forPath file
  let source ← t.readToString file
  let (updated, outcomes) ← patchSource source language file.render l patch
  let changed := updated != source
  let t ← if changed then t.writeText file updated else pure t
  return (t, { file, outcomes, changed })

/-- Patches each target in turn, keeping the result of each. -/
def applyConfigPatches (targets : List PatchTarget) : TreeStep (List (Path × Outcome PatchReport)) :=
  targets.mapM fun target => do
    match applyConfigPatch (← get) target.file target.locator target.patch with
    | .ok (t, report) => set t; return (target.file, .ok report)
    | .error e => return (target.file, .error e)

end Monorepo.Codemod
