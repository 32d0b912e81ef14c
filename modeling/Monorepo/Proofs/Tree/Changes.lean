import Monorepo.Proofs.Commit.Materialize

/-! The pending changes are the difference between the disk and the live view. A path differs
when it is live with no disk file there (a creation), live with other bytes than the disk file
(an update), or a disk file off the view (a deletion). On a layered tree each overlay entry
reports exactly the difference at its path, and every path off the overlay shows none, so the
changes list every difference once. The overlay stays in increasing path order under every
write, delete and move, and so do the changes. Main statement: `Reached.changes_diff`. -/

namespace Monorepo.Path

theorem lt_of_lt_of_lt {p q r : Path} (first : p.lt q = true) (second : q.lt r = true) :
    p.lt r = true := by
  rw [lt_iff] at first second ⊢
  exact first.trans second

theorem lt_of_not_lt {p q : Path} (different : p ≠ q) (notBefore : p.lt q = false) :
    q.lt p = true := by
  rw [lt_iff]
  rcases lt_trichotomy p.segments q.segments with before | same | after
  · rw [← lt_iff, notBefore] at before
    cases before
  · exact absurd (eq_of_segments same) different
  · exact after

end Monorepo.Path

namespace Monorepo.StagedTree

open Monorepo.Tree Utf8 TreeStep

variable {t t' : StagedTree}

/-- The overlay lists its paths in strictly increasing order, as a map ordered by key does. -/
def Ordered (t : StagedTree) : Prop :=
  t.overlay.Pairwise fun a b => a.1.lt b.1 = true

theorem Ordered.setStaged (ordered : t.Ordered) (p : Path) (s : Staged) :
    (t.setStaged p s).Ordered := by
  have rest : (t.overlay.filter (·.1 != p)).Pairwise fun a b => a.1.lt b.1 = true :=
    ordered.filter _
  have later : ∀ b ∈ (t.overlay.filter (·.1 != p)).filter (fun e => !(e.1.lt p)),
      p.lt b.1 = true := by
    intro b member
    simp only [List.mem_filter, bne_iff_ne, ne_eq, Bool.not_eq_true'] at member
    exact Path.lt_of_not_lt member.1.2 member.2
  unfold Ordered StagedTree.setStaged
  simp only [List.append_assoc, List.singleton_append]
  refine List.pairwise_append.mpr ⟨rest.filter _, List.pairwise_cons.mpr ⟨later, rest.filter _⟩,
    fun a inBefore b inRest => ?_⟩
  have before : a.1.lt p = true := (List.mem_filter.mp inBefore).2
  rcases List.mem_cons.mp inRest with rfl | inAfter
  · exact before
  · exact Path.lt_of_lt_of_lt before (later b inAfter)

theorem Ordered.unstage (ordered : t.Ordered) (p : Path) : (t.unstage p).Ordered :=
  ordered.filter _

theorem Ordered.write (ordered : t.Ordered) {p : Path} {c : Bytes}
    (written : t.write p c = .ok t') : t'.Ordered := by
  obtain ⟨-, -, -, -, rfl⟩ := write_eq_ok_iff.mp written
  exact ordered.setStaged p _

theorem Ordered.deleteFile (ordered : t.Ordered) (f : Path) : (t.deleteFile f).Ordered := by
  unfold StagedTree.deleteFile
  split
  · exact ordered.setStaged f .deleted
  · exact ordered.unstage f

theorem Ordered.foldl_deleteFile (ordered : t.Ordered) (files : List Path) :
    (files.foldl StagedTree.deleteFile t).Ordered := by
  induction files generalizing t with
  | nil => exact ordered
  | cons f rest ih => exact ih (ordered.deleteFile f)

theorem Ordered.delete (ordered : t.Ordered) {p : Path} (deleted : t.delete p = .ok t') :
    t'.Ordered := by
  unfold StagedTree.delete at deleted
  obtain ⟨_, -, deleted⟩ := except_bind_eq_ok.mp deleted
  split at deleted
  · cases deleted
    exact ordered.deleteFile p
  split at deleted
  · obtain ⟨files, -, deleted⟩ := except_bind_eq_ok.mp deleted
    cases deleted
    exact ordered.foldl_deleteFile files
  · cases deleted
    exact ordered

theorem Reached.ordered (reached : t.Reached) : t.Ordered := by
  induction reached with
  | fresh workspace settings => exact List.Pairwise.nil
  | call c before ih =>
    exact Preserves.call (fun _ _ _ _ ordered written => ordered.write written)
      (fun _ _ _ ordered deleted => ordered.delete deleted) c _ ih

/-- How the live view differs from the disk's files at a path: a live path with no disk file is
created, a live path whose bytes differ from the disk file's is updated, and a disk file off the
view is deleted. -/
def changeAt (t : StagedTree) (p : Path) : Option ChangeKind :=
  match t.view p, t.diskFile p with
  | some _, none => some .create
  | some c, some d => if c = d then none else some .update
  | none, some _ => some .delete
  | none, none => none

theorem changeAt_eq_none_iff {p : Path} : t.changeAt p = none ↔ t.view p = t.diskFile p := by
  unfold changeAt
  split <;> simp_all

theorem Layered.changeAt_of_unstaged (layered : t.Layered) {p : Path}
    (unstaged : t.staged? p = none) : t.changeAt p = none := by
  rw [changeAt_eq_none_iff, view_of_unstaged unstaged]
  split
  · rename_i covered
    obtain ⟨a, above, stagedA⟩ := covered
    cases onDisk : t.diskFile p with
    | none => rfl
    | some b =>
      have tombstone := layered.buried a p stagedA (Path.mem_ancestors.mp above) (by simp [onDisk])
      rw [unstaged] at tombstone
      cases tombstone
  · rfl

/-- Each overlay entry of a layered tree reports the change at its path: a tombstone stands on
a disk file that the view no longer holds, and a staged file is created or updated unless the disk
already holds its bytes. -/
theorem Layered.changes_eq (layered : t.Layered) :
    t.changes = t.overlay.filterMap fun e => (t.changeAt e.1).map (Change.mk e.1) := by
  unfold changes
  refine List.filterMap_congr fun e member => ?_
  obtain ⟨p, s⟩ := e
  have staged := (staged?_eq_some_iff layered.keysUnique).mpr member
  have shaped := layered.workspace.toShaped
  cases s with
  | deleted =>
    obtain ⟨b, onDisk⟩ := layered.file_of_tombstone staged
    simp [changeAt, view, staged, diskFile_eq_some_iff.mpr onDisk]
  | content c =>
    cases read : t.disk.read (t.physical p) with
    | ok existing =>
      have onDisk := diskFile_eq_some_iff.mpr ((Disk.read_eq_ok_iff shaped).mp read)
      by_cases same : existing = c
      · simp [changeAt, view_of_content staged, onDisk, read, same]
      · simp [changeAt, view_of_content staged, onDisk, read, same, Ne.symm same]
    | error e =>
      have offDisk : t.diskFile p = none := by
        cases onDisk : t.diskFile p with
        | none => rfl
        | some b =>
          rw [(Disk.read_eq_ok_iff shaped).mpr (diskFile_eq_some_iff.mp onDisk)] at read
          cases read
      simp [changeAt, view_of_content staged, offDisk, read]

theorem Layered.mem_changes_iff (layered : t.Layered) {p : Path} {k : ChangeKind} :
    (⟨p, k⟩ : Change) ∈ t.changes ↔ t.changeAt p = some k := by
  rw [layered.changes_eq, List.mem_filterMap]
  constructor
  · rintro ⟨⟨q, s⟩, -, reported⟩
    obtain ⟨k', shown, same⟩ := Option.map_eq_some_iff.mp reported
    cases same
    exact shown
  · intro shown
    cases staged : t.staged? p with
    | none => simp [layered.changeAt_of_unstaged staged] at shown
    | some s =>
      exact ⟨(p, s), (staged?_eq_some_iff layered.keysUnique).mp staged, by simp [shown]⟩

theorem Ordered.changes_sorted (ordered : t.Ordered) :
    (t.changes.map (·.path)).Pairwise fun a b => a.lt b = true := by
  refine List.Pairwise.sublist ?_ (List.pairwise_map.mpr ordered)
  rw [changes, List.map_filterMap]
  refine filterMap_sublist_map fun entry q made => ?_
  obtain ⟨p, s⟩ := entry
  cases s with
  | deleted =>
    simp only [Option.map_some, Option.some.injEq] at made
    exact made.symm
  | content c =>
    dsimp only at made
    split at made
    · split at made
      · cases made
      · simp only [Option.map_some, Option.some.injEq] at made
        exact made.symm
    · simp only [Option.map_some, Option.some.injEq] at made
      exact made.symm

/-- The pending changes of every tree a session reaches, whatever paths its calls name, are the
difference between the disk's files and the live view, in increasing path order: each path where the two differ is listed once,
as a creation, an update or a deletion as `changeAt` says, and no other path is. So nothing is
pending exactly when the live view is the disk's file map. -/
theorem Reached.changes_diff (reached : t.Reached) :
    (t.changes.map (·.path)).Pairwise (fun a b => a.lt b = true) ∧
      (∀ p k, (⟨p, k⟩ : Change) ∈ t.changes ↔ t.changeAt p = some k) ∧
      (t.hasChanges = false ↔ ∀ p, t.view p = t.diskFile p) := by
  have layered := reached.layered
  refine ⟨reached.ordered.changes_sorted, fun p k => layered.mem_changes_iff, ?_⟩
  simp only [hasChanges, Bool.not_eq_false', List.isEmpty_iff, ← changeAt_eq_none_iff]
  constructor
  · intro empty p
    cases shown : t.changeAt p with
    | none => rfl
    | some k =>
      have listed := layered.mem_changes_iff.mpr shown
      simp [empty] at listed
  · intro none
    refine List.eq_nil_iff_forall_not_mem.mpr fun ch listed => ?_
    have shown := layered.mem_changes_iff.mp listed
    simp [none ch.path] at shown

end Monorepo.StagedTree

namespace Monorepo.StagedTree

open Monorepo.Tree

/-- A session over a disk holding `a` and `b` that rewrites `a`, deletes `b` and creates `d /c`,
a path whose first segment ends in a blank. -/
theorem Reached.changes_diff_after_update_delete_padded_create :
    let t := ((Call.write ⟨["d ", "c"]⟩ [2]).step.runOn ((Call.delete ⟨["b"]⟩).step.runOn
      ((Call.write ⟨["a"]⟩ [1]).step.runOn
        { disk := ⟨[([.text "a"], .file [120]), ([.text "b"], .file [121])]⟩,
          base := [], settings := {} }).2).2).2
    Reached t ∧ (t.changes.map (·.path)).Pairwise (fun a b => a.lt b = true) ∧
      (∀ p k, (⟨p, k⟩ : Change) ∈ t.changes ↔ t.changeAt p = some k) ∧
      (t.hasChanges = false ↔ ∀ p, t.view p = t.diskFile p) := by
  intro t
  have reached : Reached t :=
    .call _ (.call _ (.call _ (.fresh ⟨⟨by decide, by decide⟩, by decide, by decide⟩ {})))
  exact ⟨reached, Reached.changes_diff reached⟩

example : ((Call.write ⟨["d ", "c"]⟩ [2]).step.runOn ((Call.delete ⟨["b"]⟩).step.runOn
    ((Call.write ⟨["a"]⟩ [1]).step.runOn
      { disk := ⟨[([.text "a"], .file [120]), ([.text "b"], .file [121])]⟩,
        base := [], settings := {} }).2).2).2.changes =
    [⟨⟨["a"]⟩, .update⟩, ⟨⟨["b"]⟩, .delete⟩, ⟨⟨["d ", "c"]⟩, .create⟩] := by
  decide

end Monorepo.StagedTree
