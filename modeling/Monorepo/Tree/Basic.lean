import Monorepo.Disk.Basic
import Monorepo.Path
import Monorepo.Config.Basic

/-! A staged view of a workspace on disk. Writes and deletes are kept in an overlay, ordered by
path, until a commit; reads see the overlay first and the disk below it. A staged file hides the
disk below its own path, a deleted file hides the disk file, and a directory exists while it holds
a live file. Changes compare the overlay with the disk: a staged file equal to the disk file is
no change. -/

namespace Monorepo.Tree

open Utf8

/-- What the overlay holds for a path. -/
inductive Staged where
  | content (bytes : Bytes)
  | deleted
  deriving DecidableEq, Repr

/-- How a staged path differs from disk. -/
inductive ChangeKind where
  | create
  | update
  | delete
  deriving DecidableEq, Repr

/-- The label of a change kind. -/
def ChangeKind.label : ChangeKind → String
  | .create => "CREATE"
  | .update => "UPDATE"
  | .delete => "DELETE"

/-- One pending change. -/
structure Change where
  path : Path
  kind : ChangeKind
  deriving DecidableEq, Repr

def Change.render (c : Change) : String := c.kind.label ++ " " ++ c.path.render

end Monorepo.Tree

namespace Monorepo

open Utf8 Monorepo.Tree

/-- A workspace on disk with the changes staged over it. -/
structure StagedTree where
  disk : Disk
  /-- Where the workspace root lies on the disk. -/
  base : List Name := []
  overlay : List (Path × Staged) := []
  settings : Config.CommitSettings := {}
  committed : Bool := false
  deriving Repr

namespace StagedTree

def physical (t : StagedTree) (p : Path) : List Name := t.base ++ p.segments.map .text

def staged? (t : StagedTree) (p : Path) : Option Staged :=
  (t.overlay.find? (·.1 == p)).map (·.2)

/-- Whether the overlay holds a file. -/
def stagedFile (t : StagedTree) (p : Path) : Bool :=
  match t.staged? p with
  | some (.content _) => true
  | _ => false

/-- Whether a staged file stands at some directory above a path. -/
def shadowed (t : StagedTree) (p : Path) : Bool :=
  (List.range p.length).any fun k => t.stagedFile ⟨p.segments.take k⟩

/-- The staged files strictly below a directory, in path order. -/
def stagedFilesBelow (t : StagedTree) (dir : Path) : List Path :=
  t.overlay.filterMap fun (p, s) =>
    match s with
    | .content _ => if p.startsWith dir && p.length > dir.length then some p else none
    | .deleted => none

/-- The staged files strictly below a directory read off the overlay as a range, the way a map
ordered by path is scanned: the entries from `dir` on, up to the first path not in `dir`, and of
those the files deeper than `dir`. On an overlay in path order it is `stagedFilesBelow`. -/
def rangeFilesBelow (overlay : List (Path × Staged)) (dir : Path) : List Path :=
  ((overlay.dropWhile fun e => e.1.lt dir).takeWhile fun e => e.1.startsWith dir).filterMap fun e =>
    match e.2 with
    | .content _ => if e.1.length > dir.length then some e.1 else none
    | .deleted => none

/-- The workspace path of a disk location below the root, when its names are text. -/
def ofPhysical (t : StagedTree) (q : List Name) : Option Path :=
  if t.base.isPrefixOf q then
    match (q.drop t.base.length).mapM Name.text? with
    | some names => (Path.parse ("/".intercalate names)).toOption
    | none => none
  else none

/-- Reads a file: staged content, else the disk; a directory reads as not found. -/
def read (t : StagedTree) (p : Path) : Outcome Bytes :=
  match t.staged? p with
  | some (.content c) => .ok c
  | some .deleted => .error (.notFound "File" p.render)
  | none =>
    if t.shadowed p then .error (.notFound "File" p.render)
    else
      match t.disk.read (t.physical p) with
      | .ok c => .ok c
      | .error .notFound => .error (.notFound "File" p.render)
      | .error e => if t.disk.isDir (t.physical p) then .error (.notFound "File" p.render)
        else .error (.io e)

/-- Reads a file as text. -/
def readToString (t : StagedTree) (p : Path) : Outcome String := do
  match decode? (← t.read p) with
  | some s => return s
  | none => throw (.parse p.render "file is not valid UTF-8")

/-- Whether a live file stands at a path. -/
def isFile (t : StagedTree) (p : Path) : Bool :=
  match t.staged? p with
  | some (.content _) => true
  | some .deleted => false
  | none => !t.shadowed p && t.disk.isFile (t.physical p)

/-- Whether a directory holding a live file stands at a path; the root always does. -/
def isDir (t : StagedTree) (p : Path) : Bool :=
  if p.isRoot then true
  else if t.stagedFile p then false
  else if !(t.stagedFilesBelow p).isEmpty then true
  else if t.shadowed p then false
  else if !t.disk.isDir (t.physical p) then false
  else
    (t.disk.below (t.physical p)).any fun (q, e) =>
      match e with
      | .file _ =>
        match t.ofPhysical q with
        | some file => t.staged? file != some .deleted
        | none => false
      | .dir => false

def contains (t : StagedTree) (p : Path) : Bool := t.isFile p || t.isDir p

/-- The live entries directly inside a directory, in order of their names. -/
def children (t : StagedTree) (dir : Path) : Outcome (List Path) := do
  let fromDisk ←
    if t.disk.isDir (t.physical dir) && !t.shadowed dir then
      match t.disk.readDir (t.physical dir) with
      | .error e => throw (.io e)
      | .ok names =>
        (names.filterMap Name.text?).filterMapM fun name => do
          let child ← dir.join name
          return if t.isFile child || t.isDir child then some name else none
    else pure []
  let fromOverlay := (t.stagedFilesBelow dir).filterMap fun p => p.segments[dir.length]?
  let names := (fromDisk ++ fromOverlay).mergeSort (fun a b => a ≤ b) |>.eraseDups
  names.mapM dir.join

/-- One more than the length of every overlay path and of every disk location: no live file lies
deeper, so a walk never needs more levels. -/
def depthBound (t : StagedTree) : Nat :=
  (t.overlay.map (·.1.length) ++ t.disk.entries.map (·.1.length)).foldr (· + ·) 0 + 1

/-- The live files below a directory, depth first in name order, descending only into
directories that `descend` accepts. -/
def walkFilesWhere (t : StagedTree) (dir : Path) (descend : Path → Bool) : Outcome (List Path) :=
  if t.isFile dir then .ok [dir] else go t.depthBound dir
where
  go : Nat → Path → Outcome (List Path)
    | 0, _ => .ok []
    | fuel + 1, d => do
      let kids ← t.children d
      kids.flatMapM fun child =>
        if t.isFile child then pure [child]
        else if descend child then go fuel child
        else pure []

def walkFiles (t : StagedTree) (dir : Path) : Outcome (List Path) := t.walkFilesWhere dir fun _ => true

def ensureOpen (t : StagedTree) : Outcome Unit :=
  if t.committed then .error .alreadyCommitted else .ok ()

/-- Sets the overlay entry of a path, keeping the overlay in path order. -/
def setStaged (t : StagedTree) (p : Path) (s : Staged) : StagedTree :=
  let rest := t.overlay.filter (·.1 != p)
  let before := rest.filter fun (q, _) => q.lt p
  let after := rest.filter fun (q, _) => !(q.lt p)
  { t with overlay := before ++ [(p, s)] ++ after }

def unstage (t : StagedTree) (p : Path) : StagedTree :=
  { t with overlay := t.overlay.filter (·.1 != p) }

/-- Stages a file write: not at the root, not over a directory, not below a file. -/
def write (t : StagedTree) (p : Path) (content : Bytes) : Outcome StagedTree := do
  t.ensureOpen
  if p.isRoot then throw (.invalidPath "." "cannot write to the workspace root")
  if t.isDir p then throw (.invalidInput s!"Cannot write {p.render}: it is a directory")
  let ancestors := (List.range p.length).reverse.map fun k => (⟨p.segments.take k⟩ : Path)
  for dir in ancestors do
    if !dir.isRoot && t.isFile dir then
      throw (.invalidInput s!"Cannot write {p.render}: {dir.render} is a file")
  return t.setStaged p (.content content)

def writeText (t : StagedTree) (p : Path) (content : String) : Outcome StagedTree :=
  t.write p (encode content)

/-- Stages the deletion of one live file: a tombstone over a disk file, or else dropping the
staged file from the overlay. -/
def deleteFile (t : StagedTree) (f : Path) : StagedTree :=
  if t.disk.isFile (t.physical f) then t.setStaged f .deleted else t.unstage f

/-- Stages the deletion of a file, or of every file below a directory; a missing path is
ignored. -/
def delete (t : StagedTree) (p : Path) : Outcome StagedTree := do
  t.ensureOpen
  if t.isFile p then return t.deleteFile p
  else if t.isDir p then
    let files ← t.walkFiles p
    return files.foldl deleteFile t
  else return t

end StagedTree

/-- Steps that change a staged tree and may fail; a failure keeps what was staged before it. -/
abbrev TreeStep := ExceptT Error (StateM StagedTree)

namespace TreeStep

/-- Runs a tree operation that either fails or gives the new tree. -/
def update (f : StagedTree → Outcome StagedTree) : TreeStep Unit := do
  match f (← get) with
  | .ok t => set t
  | .error e => throw e

/-- Runs a query of the tree. -/
def query {α : Type} (f : StagedTree → Outcome α) : TreeStep α := do
  match f (← get) with
  | .ok a => return a
  | .error e => throw e

/-- Runs steps on a tree: the result and the tree afterwards. -/
def runOn {α : Type} (step : TreeStep α) (t : StagedTree) : Outcome α × StagedTree :=
  (step.run).run t

end TreeStep

namespace StagedTree

/-- Moves files, each source to its target: every source is read, then deleted, then written at
its target. -/
def moveAll (moves : List (Path × Path)) : TreeStep Unit := do
  let contents ← moves.mapM fun (old, new) => return (new, ← TreeStep.query fun t => t.read old)
  for (old, _) in moves do TreeStep.update fun t => t.delete old
  for (new, c) in contents do TreeStep.update fun t => t.write new c

/-- Stages a move of a file or of every file below a directory. -/
def rename (src dst : Path) : TreeStep Unit := do
  let t ← get
  TreeStep.query fun t => t.ensureOpen
  if src == dst then return
  let moves ←
    if t.isFile src then pure [(src, dst)]
    else if t.isDir src then
      if src.isRoot || dst.startsWith src then
        throw (.invalidInput s!"Cannot move {src.render} into itself ({dst.render})")
      let files ← TreeStep.query fun t => t.walkFiles src
      pure (files.map fun f => (f, dst.append ((f.stripPrefix src).getD Path.root)))
    else throw (.notFound "Path" src.render)
  moveAll moves

/-- The pending changes, in path order. -/
def changes (t : StagedTree) : List Change :=
  t.overlay.filterMap fun (p, s) =>
    match s with
    | .deleted => some ⟨p, .delete⟩
    | .content c =>
      match t.disk.read (t.physical p) with
      | .ok existing => if existing == c then none else some ⟨p, .update⟩
      | .error _ => some ⟨p, .create⟩

def hasChanges (t : StagedTree) : Bool := !t.changes.isEmpty

/-- The staged content of a path. -/
def stagedContent (t : StagedTree) (p : Path) : Option Bytes :=
  match t.staged? p with
  | some (.content c) => some c
  | _ => none

end StagedTree

end Monorepo

namespace Monorepo.StagedTree

def snapshot (t : StagedTree) : Outcome (List (Path × Utf8.Bytes)) := do
  let files ← t.walkFiles Path.root
  files.mapM fun f => return (f, ← t.read f)

end Monorepo.StagedTree
