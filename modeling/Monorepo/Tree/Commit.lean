import Monorepo.Tree.Basic

/-! Writing staged changes to disk. A commit closes the tree for good, then removes the deleted
files, prunes directories that a delete left empty (when the settings ask for it), and last
writes the created and updated files with their parent directories. The first failure stops the
commit; what was done before it stays done. -/

namespace Monorepo.Tree

/-- What a commit did. -/
structure CommitReport where
  filesWritten : Nat := 0
  filesDeleted : Nat := 0
  dirsPruned : Nat := 0
  bytesWritten : Nat := 0
  deriving DecidableEq, Repr

/-- Operations on a disk that may fail. -/
abbrev DiskStep := ExceptT Error (StateM Disk)

/-- Runs a disk operation of the operating system. -/
def onDisk {α : Type} (op : Disk → Except OsError (α × Disk)) : DiskStep α := do
  match op (← get) with
  | .ok (a, d) => set d; return a
  | .error e => throw (.io e)

/-- Removes the empty directories above a deleted file, nearest first, up to the root; returns
how many went. -/
def pruneEmptyParents (base : List Name) (deleted : Path) : DiskStep Nat :=
  go deleted.length deleted.parent 0
where
  go : Nat → Option Path → Nat → DiskStep Nat
    | 0, _, n => pure n
    | _, none, n => pure n
    | fuel + 1, some current, n => do
      if current.isRoot then return n
      let physical := base ++ current.segments.map .text
      let empty ← match (← get).readDir physical with
        | .ok names => pure names.isEmpty
        | .error .notFound => pure false
        | .error e => throw (.io e)
      if !empty then return n
      onDisk fun d => (d.removeDir physical).map ((), ·)
      go fuel current.parent (n + 1)

end Monorepo.Tree

namespace Monorepo.StagedTree

open Monorepo.Tree

/-- Removes the files a commit deletes, counting them; a file already gone is skipped. -/
def removeDeleted (t : StagedTree) (deletes : List Change) (report : CommitReport) :
    DiskStep CommitReport := do
  let mut report := report
  for change in deletes do
    match (← get).removeFile (t.physical change.path) with
    | .ok d => set d; report := { report with filesDeleted := report.filesDeleted + 1 }
    | .error .notFound => pure ()
    | .error e => throw (.io e)
  return report

/-- Prunes the directories that the deletes left empty, counting them. -/
def pruneDeleted (t : StagedTree) (deletes : List Change) (report : CommitReport) :
    DiskStep CommitReport := do
  let mut report := report
  for change in deletes do
    let n ← pruneEmptyParents t.base change.path
    report := { report with dirsPruned := report.dirsPruned + n }
  return report

/-- Writes the created and updated files with their parent directories, counting files and
bytes. -/
def writeChanged (t : StagedTree) (writes : List Change) (report : CommitReport) :
    DiskStep CommitReport := do
  let mut report := report
  for change in writes do
    let some content := t.stagedContent change.path
      | throw (.notFound "Staged content" change.path.render)
    let physical := t.physical change.path
    onDisk fun d => (d.createDirAll physical.dropLast).map ((), ·)
    onDisk fun d => (d.write physical content).map ((), ·)
    report := { report with filesWritten := report.filesWritten + 1,
                            bytesWritten := report.bytesWritten + content.length }
  return report

/-- The steps of a commit after the tree is closed: deletes, then pruning when the settings ask
for it, then writes. -/
def commitSteps (t : StagedTree) : DiskStep CommitReport := do
  let changes := t.changes
  if changes.isEmpty then return {}
  let deletes := changes.filter (·.kind == .delete)
  let writes := changes.filter (·.kind != .delete)
  let report ← t.removeDeleted deletes {}
  let report ← if t.settings.pruneEmptyDirs then t.pruneDeleted deletes report else pure report
  t.writeChanged writes report

/-- Commits the staged changes: closes the tree, then writes to its disk; a failure keeps
what was written before it. -/
def commit : TreeStep CommitReport := do
  let t ← get
  if t.committed then throw .alreadyCommitted
  let t := { t with committed := true }
  let (result, disk) := (t.commitSteps.run).run t.disk
  set { t with disk }
  match result with
  | .ok report => return report
  | .error e => throw e

end Monorepo.StagedTree
