import Monorepo.Proofs.Tree.Steps

/-! The staged tree refines a map from paths to bytes. A session starts from a fresh tree over a
workspace and makes writes, deletes and moves, each succeeding or failing; every tree it reaches
is consistent, and every query of such a tree answers from its live view. -/

namespace Monorepo

open StagedTree Monorepo.Tree Utf8

/-- A call that changes a staged tree. -/
inductive Call where
  | write (p : Path) (content : Bytes)
  | delete (p : Path)
  | rename (src dst : Path)
  deriving DecidableEq, Repr

namespace Call

/-- The step that runs a call. -/
def step : Call → TreeStep Unit
  | write p c => TreeStep.update fun t => t.write p c
  | delete p => TreeStep.update fun t => t.delete p
  | rename src dst => StagedTree.rename src dst

/-- The paths a call may write are plain: the path written, or the target of a move. -/
def Plain : Call → Prop
  | write p _ => p.Plain
  | delete _ => True
  | rename _ dst => dst.Plain

instance : DecidablePred Plain
  | write p _ => inferInstanceAs (Decidable p.Plain)
  | delete _ => inferInstanceAs (Decidable True)
  | rename _ dst => inferInstanceAs (Decidable dst.Plain)

theorem keeps {call : Call} (plain : call.Plain) : TreeStep.Keeps call.step fun _ => True := by
  cases call with
  | write p c => exact TreeStep.keeps_write plain c
  | delete p => exact TreeStep.keeps_delete p
  | rename src dst => exact TreeStep.keeps_rename src plain

end Call

namespace TreeStep

open StagedTree

/-- A step after which a property of trees still holds, whether the step succeeds or fails. -/
def Preserves {α : Type} (P : StagedTree → Prop) (step : TreeStep α) : Prop :=
  ∀ t, P t → P (step.runOn t).2

namespace Preserves

variable {α β : Type} {P : StagedTree → Prop}

theorem pure (a : α) : Preserves P (Pure.pure a : TreeStep α) := fun _ holds => holds

theorem throw (e : Error) : Preserves P (MonadExcept.throw e : TreeStep α) := fun _ holds => holds

theorem get : Preserves P (MonadState.get : TreeStep StagedTree) := fun _ holds => holds

theorem query (f : StagedTree → Outcome α) : Preserves P (TreeStep.query f) := fun t holds => by
  rw [runOn_query]
  exact holds

theorem update {f : StagedTree → Outcome StagedTree} (keeps : ∀ t t', P t → f t = .ok t' → P t') :
    Preserves P (TreeStep.update f) := fun t holds => by
  rw [runOn_update]
  cases found : f t with
  | ok t' => exact keeps t t' holds found
  | error e => exact holds

theorem bind {x : TreeStep α} {f : α → TreeStep β} (first : Preserves P x)
    (next : ∀ a, Preserves P (f a)) : Preserves P (x >>= f) := by
  intro t holds
  cases run : x.runOn t with
  | mk r t₁ =>
    have mid := first t holds
    rw [run] at mid
    cases r with
    | ok a =>
      rw [runOn_bind_ok run]
      exact next a t₁ mid
    | error e =>
      rw [runOn_bind_error run]
      exact mid

theorem forIn {l : List α} {init : β} {body : α → β → TreeStep (ForInStep β)}
    (each : ∀ a ∈ l, ∀ b, Preserves P (body a b)) : Preserves P (forIn l init body) := by
  induction l generalizing init with
  | nil => exact pure init
  | cons a rest ih =>
    rw [List.forIn_cons]
    refine bind (each a (by simp) init) fun step => ?_
    cases step with
    | done b => exact pure b
    | yield b => exact ih fun a' member => each a' (by simp [member])

theorem mapM {l : List α} {f : α → TreeStep β} (each : ∀ a ∈ l, Preserves P (f a)) :
    Preserves P (l.mapM f) := by
  induction l with
  | nil => exact pure []
  | cons a rest ih =>
    rw [List.mapM_cons]
    exact bind (each a (by simp)) fun b =>
      bind (ih fun a' member => each a' (by simp [member])) fun bs => pure _

variable (written : ∀ t t' p c, P t → t.write p c = .ok t' → P t')
  (deleted : ∀ t t' p, P t → t.delete p = .ok t' → P t')
include written deleted

theorem moveAll (moves : List (Path × Path)) : Preserves P (moveAll moves) := by
  unfold StagedTree.moveAll
  refine bind (mapM fun move _ => ?_) fun contents =>
    bind (forIn fun move _ _ => ?_) fun _ => bind (forIn fun entry _ _ => ?_) fun _ => pure _
  · exact bind (query _) fun _ => pure _
  · exact bind (update fun t t' holds done => deleted t t' _ holds done) fun _ => pure _
  · exact bind (update fun t t' holds done => written t t' _ _ holds done) fun _ => pure _

theorem rename (src dst : Path) : Preserves P (StagedTree.rename src dst) := by
  unfold StagedTree.rename
  refine bind get fun t => bind (query _) fun _ => ?_
  split
  · exact pure _
  dsimp only
  split
  · exact bind (pure _) (moveAll written deleted)
  split
  · have walked := bind (P := P) (query fun t => t.walkFiles src) fun files =>
      bind (pure (files.map fun f => (f, dst.append ((f.stripPrefix src).getD Path.root))))
        (moveAll written deleted)
    split
    · exact bind (throw _) fun _ => walked
    · exact walked
  · exact bind (throw _) (moveAll written deleted)

theorem call (c : Call) : Preserves P c.step := by
  cases c with
  | write p content => exact update fun t t' holds done => written t t' p content holds done
  | delete p => exact update fun t t' holds done => deleted t t' p holds done
  | rename src dst => exact rename written deleted src dst

end Preserves

end TreeStep

namespace StagedTree

/-- The trees a session reaches: a fresh tree over a workspace, and whatever a call with plain
targets leaves behind, whether it succeeded or failed. -/
inductive Reachable : StagedTree → Prop
  | fresh {d : Disk} {base : List Name} (workspace : d.Workspace base)
      (settings : Config.CommitSettings) :
      Reachable { disk := d, base := base, settings := settings }
  | call {t : StagedTree} (call : Call) (plain : call.Plain) (before : Reachable t) :
      Reachable (call.step.runOn t).2

variable {t : StagedTree}

theorem view_of_empty (empty : t.overlay = []) (p : Path) : t.view p = t.diskFile p := by
  have unstaged : ∀ q, t.staged? q = none := fun q => by simp [staged?, empty]
  have noFiles : ¬∃ a ∈ p.ancestors, t.stagedFile a = true := by
    rintro ⟨a, -, staged⟩
    simp [stagedFile, unstaged a] at staged
  rw [view_of_unstaged (unstaged p), if_neg noFiles]

theorem consistent_fresh {d : Disk} {base : List Name} (workspace : d.Workspace base)
    (settings : Config.CommitSettings) :
    ({ disk := d, base := base, settings := settings } : StagedTree).Consistent := by
  refine ⟨workspace, by simp, by simp, fun p q live under => ?_, fun p q staged => ?_,
    fun p deleted => ?_⟩
  · rw [view_of_empty rfl] at live ⊢
    obtain ⟨c, found⟩ := Option.isSome_iff_exists.mp live
    exact diskFile_below_file workspace.toShaped found under
  · simp [stagedFile, staged?] at staged
  · simp [staged?] at deleted

theorem Reachable.consistent (reachable : t.Reachable) : t.Consistent := by
  induction reachable with
  | fresh workspace settings => exact consistent_fresh workspace settings
  | call call plain before ih => exact (Call.keeps plain _ ih).1

/-- The trees a session reaches when its calls may name any paths, padded ones included: a fresh
tree over a workspace, and whatever any call leaves behind, whether it succeeded or failed. -/
inductive Reached : StagedTree → Prop
  | fresh {d : Disk} {base : List Name} (workspace : d.Workspace base)
      (settings : Config.CommitSettings) :
      Reached { disk := d, base := base, settings := settings }
  | call {t : StagedTree} (call : Call) (before : Reached t) : Reached (call.step.runOn t).2

theorem Reachable.reached (reachable : t.Reachable) : t.Reached := by
  induction reachable with
  | fresh workspace settings => exact .fresh workspace settings
  | call call _ _ ih => exact .call call ih

theorem Reached.layered (reached : t.Reached) : t.Layered := by
  induction reached with
  | fresh workspace settings => exact (consistent_fresh workspace settings).toLayered
  | call call before ih =>
    exact TreeStep.Preserves.call (fun _ _ _ _ layered written => layered.after_write written)
      (fun _ _ _ layered deleted => layered.after_delete deleted) call _ ih

/-- The queries of a tree answer from its live view. No live file lies below another. A read
gives the live bytes; off the view it fails with "not found", except at an unstaged path below a
disk file that no staged file hides, where the system's "not a directory" comes through. A file
is a live path, a directory is the root or lies above a live path, and something exists where
either does. The children of a directory are, in increasing order, the names that lead to live
paths, and a walk lists a live path alone, or every live path below it once, in path order. -/
structure AnswersFromView (t : StagedTree) : Prop where
  separate : ∀ p q, (t.view p).isSome → q.IsBelow p → t.view q = none
  read_live : ∀ p b, t.view p = some b → t.read p = .ok b
  read_dead : ∀ p, t.view p = none → t.read p = .error
    (if t.staged? p = none ∧ (¬∃ a ∈ p.ancestors, t.stagedFile a = true) ∧
      ∃ a ∈ p.ancestors, (t.diskFile a).isSome then .io .notDirectory
    else .notFound "File" p.render)
  isFile : ∀ p, t.isFile p = (t.view p).isSome
  isDir : ∀ p, t.isDir p = true ↔ p = Path.root ∨ ∃ q, q.IsBelow p ∧ (t.view q).isSome
  contains : ∀ p, t.contains p = true ↔
    p = Path.root ∨ ∃ q, (t.view q).isSome ∧ p.segments <+: q.segments
  children : ∀ d, ∃ names : List String, t.children d = .ok (names.map d.child) ∧
    names.Pairwise (· < ·) ∧
    ∀ n, n ∈ names ↔ ∃ q, (t.view q).isSome ∧ (d.child n).segments <+: q.segments
  walk_live : ∀ d, (t.view d).isSome → t.walkFiles d = .ok [d]
  walk_dead : ∀ d, t.view d = none → ∃ files, t.walkFiles d = .ok files ∧
    files.Pairwise (fun a b => a.lt b = true) ∧
    ∀ q, q ∈ files ↔ (t.view q).isSome ∧ q.IsBelow d

theorem Consistent.toAnswersFromView (consistent : t.Consistent) : t.AnswersFromView where
  separate := consistent.separate
  read_live _ _ found := consistent.toLayered.read_of_live found
  read_dead _ gone := consistent.read_of_dead gone
  isFile := isFile_eq_view
  isDir _ := consistent.toLayered.isDir_iff
  contains _ := consistent.contains_iff
  children := consistent.children_spec
  walk_live _ live := walkFiles_of_live live
  walk_dead _ gone := consistent.walkFiles_of_dead gone

/-- Every tree a session reaches answers its queries from its live view. -/
theorem Reachable.answersFromView (reachable : t.Reachable) : t.AnswersFromView :=
  reachable.consistent.toAnswersFromView

/-- A session over a disk holding one file `a`: a write of `c`, then a move of `a` to `d`. -/
theorem Reachable.answersFromView_after_write_and_move :
    Reachable ((Call.rename ⟨["a"]⟩ ⟨["d"]⟩).step.runOn ((Call.write ⟨["c"]⟩ [1]).step.runOn
        { disk := ⟨[([.text "a"], .file [120])]⟩, base := [], settings := {} }).2).2 ∧
      AnswersFromView ((Call.rename ⟨["a"]⟩ ⟨["d"]⟩).step.runOn ((Call.write ⟨["c"]⟩ [1]).step.runOn
        { disk := ⟨[([.text "a"], .file [120])]⟩, base := [], settings := {} }).2).2 := by
  have reachable : Reachable ((Call.rename ⟨["a"]⟩ ⟨["d"]⟩).step.runOn
      ((Call.write ⟨["c"]⟩ [1]).step.runOn
        { disk := ⟨[([.text "a"], .file [120])]⟩, base := [], settings := {} }).2).2 :=
    .call _ (by decide) (.call _ (by decide) (.fresh ⟨⟨by decide, by decide⟩, by decide, by decide⟩ {}))
  exact ⟨reachable, Reachable.answersFromView reachable⟩

/-- Reading below a file that stands on disk fails with the system's "not a directory", not with
"not found". -/
theorem read_below_disk_file :
    ({ disk := ⟨[([.text "a"], .file [120])]⟩ } : StagedTree).read ⟨["a", "b"]⟩ =
      .error (.io .notDirectory) := by
  decide

end StagedTree

end Monorepo
