import Monorepo.Proofs.Commit.Phases
import Monorepo.Proofs.Tree.Refinement

/-! A commit writes the live view to disk. The changes are the tombstones and the staged files
whose bytes differ from the disk; the deletes remove the tombstoned files, and every other disk
file is live with the bytes the view gives it unless a write replaces it. So when the commit
succeeds the files below the root are the live view. When the settings prune emptied directories
and every directory of the disk held a file, the commit succeeds and leaves exactly the
directories above live paths. A commit closes the tree, whether it succeeds or not. -/

namespace Monorepo.StagedTree

open Monorepo.Tree Disk DiskStep Utf8

variable {t : StagedTree}

theorem filterMap_sublist_map {α β : Type} {l : List α} {g : α → Option β} {k : α → β}
    (keyed : ∀ x b, g x = some b → b = k x) : (l.filterMap g).Sublist (l.map k) := by
  induction l with
  | nil => simp
  | cons x rest ih =>
    rw [List.filterMap_cons, List.map_cons]
    cases found : g x with
    | none => exact ih.cons _
    | some b =>
      rw [keyed x b found]
      exact ih.cons_cons _

theorem nodup_changes_paths (unique : (t.overlay.map (·.1)).Nodup) :
    (t.changes.map (·.path)).Nodup := by
  refine List.Sublist.nodup ?_ unique
  rw [changes, List.map_filterMap]
  refine filterMap_sublist_map fun ⟨p, s⟩ q made => ?_
  cases s with
  | deleted =>
    simp only [Option.map_some, Option.some.injEq] at made
    exact made.symm
  | content c =>
    dsimp only at made
    split at made
    · split at made
      · cases made
      · simp only [Option.map_some, Option.some.injEq] at made
        exact made.symm
    · simp only [Option.map_some, Option.some.injEq] at made
      exact made.symm

theorem staged_of_mem_changes (unique : (t.overlay.map (·.1)).Nodup) {ch : Change}
    (member : ch ∈ t.changes) :
    (t.staged? ch.path = some .deleted ∧ ch.kind = .delete) ∨
      ∃ c, t.staged? ch.path = some (.content c) ∧ t.disk.read (t.physical ch.path) ≠ .ok c ∧
        ch.kind ≠ .delete := by
  obtain ⟨⟨p, s⟩, entry, made⟩ := List.mem_filterMap.mp member
  have staged := (staged?_eq_some_iff unique).mpr entry
  cases s with
  | deleted =>
    simp only [Option.some.injEq] at made
    subst made
    exact .inl ⟨staged, rfl⟩
  | content c =>
    dsimp only at made
    split at made
    · rename_i existing read
      split at made
      · cases made
      · rename_i different
        simp only [Option.some.injEq] at made
        subst made
        refine .inr ⟨c, staged, fun same => ?_, by simp⟩
        rw [read] at same
        simp_all
    · rename_i e read
      simp only [Option.some.injEq] at made
      subst made
      exact .inr ⟨c, staged, by simp [read], by simp⟩

theorem delete_mem_changes (unique : (t.overlay.map (·.1)).Nodup) {p : Path}
    (deleted : t.staged? p = some .deleted) : ⟨p, .delete⟩ ∈ t.changes :=
  List.mem_filterMap.mpr ⟨(p, .deleted), (staged?_eq_some_iff unique).mp deleted, rfl⟩

theorem write_mem_changes (unique : (t.overlay.map (·.1)).Nodup) {p : Path} {c : Bytes}
    (staged : t.staged? p = some (.content c)) (changed : t.disk.read (t.physical p) ≠ .ok c) :
    ∃ ch ∈ t.changes, ch.path = p ∧ ch.kind ≠ .delete := by
  have entry := (staged?_eq_some_iff unique).mp staged
  cases read : t.disk.read (t.physical p) with
  | ok existing =>
    have different : (existing == c) = false := by
      simp only [beq_eq_false_iff_ne]
      rintro rfl
      exact changed read
    exact ⟨⟨p, .update⟩, List.mem_filterMap.mpr ⟨(p, .content c), entry, by simp [read, different]⟩,
      rfl, by simp⟩
  | error e =>
    exact ⟨⟨p, .create⟩, List.mem_filterMap.mpr ⟨(p, .content c), entry, by simp [read]⟩,
      rfl, by simp⟩

/-- A path that no write changes and that is no tombstone reads the same from the view as from
the disk: a staged file there equals the disk file, and a disk file below a staged file is
tombstoned. -/
theorem Layered.view_of_unwritten (layered : t.Layered) {q : Path}
    (unwritten : ¬∃ ch ∈ t.changes, ch.path = q ∧ ch.kind ≠ .delete)
    (kept : t.staged? q ≠ some .deleted) : t.view q = t.diskFile q := by
  cases staged : t.staged? q with
  | some s =>
    cases s with
    | deleted => exact absurd staged kept
    | content c =>
      have read : t.disk.read (t.physical q) = .ok c := by
        by_contra changed
        exact unwritten (write_mem_changes layered.keysUnique staged changed)
      have file := (Disk.read_eq_ok_iff layered.workspace.toShaped).mp read
      rw [view_of_content staged, diskFile_eq_some_iff.mpr file]
  | none =>
    rw [view_of_unstaged staged]
    split
    · rename_i covered
      obtain ⟨a, above, stagedA⟩ := covered
      cases onDisk : t.diskFile q with
      | none => rfl
      | some b =>
        have tombstone :=
          layered.buried a q stagedA (Path.mem_ancestors.mp above) (by simp [onDisk])
        rw [staged] at tombstone
        cases tombstone
    · rfl

/-- The files of a disk are those of the tree's disk less the tombstoned ones. -/
def FilesKept (t : StagedTree) (d : Disk) : Prop :=
  ∀ l b, d.get? l = some (.file b) ↔
    (¬∃ q, l = t.physical q ∧ t.staged? q = some .deleted) ∧ t.disk.get? l = some (.file b)

/-- A disk holds a tree's live view below the workspace root: a file at each live path with the
live bytes, and no other file. -/
def HoldsView (t : StagedTree) (d : Disk) : Prop :=
  ∀ l b, t.base <+: l → (d.get? l = some (.file b) ↔ ∃ q, l = t.physical q ∧ t.view q = some b)

/-- The directories strictly below the workspace root are exactly those above a live path. -/
def DirsOfView (t : StagedTree) (d : Disk) : Prop :=
  ∀ l, t.base <+: l → l ≠ t.base →
    (d.get? l = some .dir ↔ ∃ a, l = t.physical a ∧ ∃ q, (t.view q).isSome ∧ q.IsBelow a)

variable {d : Disk}

theorem Layered.path_of_file (layered : t.Layered) {l : List Name} {b : Bytes}
    (onDisk : t.disk.get? l = some (.file b)) (inside : t.base <+: l) :
    ∃ q, l = t.physical q := by
  have nonempty : l ≠ [] := by
    rintro rfl
    simp at onDisk
  obtain ⟨q, same, -⟩ := layered.path_of_entry
    ((Disk.get?_eq_some_iff layered.workspace.toShaped nonempty).mp onDisk) inside
  exact ⟨q, same⟩

theorem FilesKept.live (layered : t.Layered) (kept : FilesKept t d) {l : List Name}
    {b : Bytes} (file : d.get? l = some (.file b)) (inside : t.base <+: l) :
    ∃ q, l = t.physical q ∧ (t.view q).isSome := by
  obtain ⟨untombed, onDisk⟩ := (kept l b).mp file
  obtain ⟨q, rfl⟩ := layered.path_of_file onDisk inside
  refine ⟨q, rfl, ?_⟩
  have diskFile : t.diskFile q = some b := diskFile_eq_some_iff.mpr onDisk
  have notDeleted : t.staged? q ≠ some .deleted := fun deleted => untombed ⟨q, rfl, deleted⟩
  cases staged : t.staged? q with
  | some s =>
    cases s with
    | deleted => exact absurd staged notDeleted
    | content c => simp [view_of_content staged]
  | none =>
    rw [view_of_unstaged staged]
    split
    · rename_i covered
      obtain ⟨a, above, stagedA⟩ := covered
      have tombstone := layered.buried a q stagedA (Path.mem_ancestors.mp above)
        (by simp [diskFile])
      exact absurd tombstone notDeleted
    · simp [diskFile]

theorem FilesKept.clear (layered : t.Layered) (kept : FilesKept t d) :
    ∀ k ≤ t.base.length, d.isFile (t.base.take k) = false := by
  intro k within
  have dir : t.disk.get? (t.base.take k) = some .dir := by
    rcases Nat.lt_or_ge k t.base.length with shorter | longest
    · exact get?_take layered.workspace.toShaped layered.workspace.top shorter
    · rw [List.take_of_length_le longest]
      exact layered.workspace.top
  cases file : d.isFile (t.base.take k) with
  | false => rfl
  | true =>
    obtain ⟨b, found⟩ := isFile_iff.mp file
    rw [((kept _ b).mp found).2] at dir
    cases dir

theorem Layered.ne_root_of_staged (layered : t.Layered) {p : Path} {s : Staged}
    (staged : t.staged? p = some s) : p ≠ Path.root :=
  layered.offRoot _ ((staged?_eq_some_iff layered.keysUnique).mp staged)

theorem Layered.file_of_tombstone (layered : t.Layered) {q : Path}
    (deleted : t.staged? q = some .deleted) :
    ∃ b, t.disk.get? (t.physical q) = some (.file b) := by
  obtain ⟨b, onDisk⟩ := Option.isSome_iff_exists.mp (layered.tombstones q deleted)
  exact ⟨b, diskFile_eq_some_iff.mp onDisk⟩

theorem tombstone_of_mem_deletes (unique : (t.overlay.map (·.1)).Nodup) {ch : Change}
    (member : ch ∈ t.changes.filter (·.kind == .delete)) : t.staged? ch.path = some .deleted := by
  obtain ⟨member, isDelete⟩ := List.mem_filter.mp member
  rcases staged_of_mem_changes unique member with ⟨deleted, _⟩ | ⟨_, _, _, notDelete⟩
  · exact deleted
  · simp [notDelete] at isDelete

theorem content_of_mem_writes (unique : (t.overlay.map (·.1)).Nodup) {ch : Change}
    (member : ch ∈ t.changes.filter (·.kind != .delete)) :
    ∃ c, t.staged? ch.path = some (.content c) := by
  obtain ⟨member, notDelete⟩ := List.mem_filter.mp member
  rcases staged_of_mem_changes unique member with ⟨_, isDelete⟩ | ⟨c, staged, _, _⟩
  · simp [isDelete] at notDelete
  · exact ⟨c, staged⟩

theorem delete_mem_deletes (unique : (t.overlay.map (·.1)).Nodup) {p : Path}
    (deleted : t.staged? p = some .deleted) : ⟨p, .delete⟩ ∈ t.changes.filter (·.kind == .delete) :=
  List.mem_filter.mpr ⟨delete_mem_changes unique deleted, rfl⟩

theorem mem_deleted_locations (unique : (t.overlay.map (·.1)).Nodup) {l : List Name} :
    l ∈ (t.changes.filter (·.kind == .delete)).map (fun ch => t.physical ch.path) ↔
      ∃ q, l = t.physical q ∧ t.staged? q = some .deleted := by
  constructor
  · intro removed
    obtain ⟨ch, member, rfl⟩ := List.mem_map.mp removed
    exact ⟨ch.path, rfl, tombstone_of_mem_deletes unique member⟩
  · rintro ⟨q, rfl, deleted⟩
    exact List.mem_map.mpr ⟨_, delete_mem_deletes unique deleted, rfl⟩

theorem unchanged_of_unwritten {q : Path}
    (unwritten : ∀ ch ∈ t.changes.filter (·.kind != .delete), ch.path ≠ q) :
    ¬∃ ch ∈ t.changes, ch.path = q ∧ ch.kind ≠ .delete := by
  rintro ⟨ch, member, same, notDelete⟩
  exact unwritten ch (List.mem_filter.mpr ⟨member, by simpa using notDelete⟩) same

theorem Layered.removeTombstoned_ends (layered : t.Layered) :
    Ends (t.removeDeleted (t.changes.filter (·.kind == .delete)) {}) t.disk
      (fun r d₁ => r.filesWritten = 0 ∧
        r.filesDeleted = (t.changes.filter (·.kind == .delete)).length ∧ r.bytesWritten = 0 ∧
        d₁.Shaped ∧ FilesKept t d₁ ∧ ∀ l, d₁.get? l = some .dir ↔ t.disk.get? l = some .dir)
      (fun _ => False) := by
  have unique := layered.keysUnique
  have paths : ((t.changes.filter (·.kind == .delete)).map (·.path)).Nodup :=
    (List.filter_sublist.map _).nodup (nodup_changes_paths unique)
  have distinct :
      ((t.changes.filter (·.kind == .delete)).map fun ch => t.physical ch.path).Nodup := by
    have inj : Function.Injective t.physical := fun _ _ same => physical_inj.mp same
    simpa [List.map_map, Function.comp_def] using List.Nodup.map inj paths
  have files : ∀ ch ∈ t.changes.filter (·.kind == .delete), ch.path ≠ Path.root ∧
      ∃ b, t.disk.get? (t.physical ch.path) = some (.file b) := fun ch member =>
    have deleted := tombstone_of_mem_deletes unique member
    ⟨layered.ne_root_of_staged deleted, layered.file_of_tombstone deleted⟩
  refine (removeDeleted_ends {} layered.workspace.toShaped distinct files).mono
    (fun r d₁ ⟨written, deleted, bytes, shaped₁, gets⟩ => ⟨by simpa using written,
      by simpa using deleted, by simpa using bytes, shaped₁, fun l b => ?_, fun l => ?_⟩)
    fun _ never => never
  · rw [gets l]
    split
    · rename_i removed
      simp [(mem_deleted_locations unique).mp removed]
    · rename_i left
      simp [mt (mem_deleted_locations unique).mpr left]
  · rw [gets l]
    split
    · rename_i removed
      obtain ⟨q, rfl, deleted⟩ := (mem_deleted_locations unique).mp removed
      obtain ⟨b, file⟩ := layered.file_of_tombstone deleted
      simp [file]
    · exact Iff.rfl

theorem Layered.above_deletes (layered : t.Layered)
    (dirs : ∀ l, d.get? l = some .dir ↔ t.disk.get? l = some .dir) :
    ∀ ch ∈ t.changes.filter (·.kind == .delete), ch.path ≠ Path.root ∧
      ∀ k < (t.physical ch.path).length, d.get? ((t.physical ch.path).take k) = some .dir := by
  intro ch member
  have deleted := tombstone_of_mem_deletes layered.keysUnique member
  obtain ⟨b, file⟩ := layered.file_of_tombstone deleted
  exact ⟨layered.ne_root_of_staged deleted,
    fun k shorter => (dirs _).mpr (get?_take layered.workspace.toShaped file shorter)⟩

theorem FilesKept.kept_or_deleted (unique : (t.overlay.map (·.1)).Nodup) (kept : FilesKept t d)
    {l : List Name} {b : Bytes} (file : t.disk.get? l = some (.file b)) :
    d.get? l = some (.file b) ∨
      ∃ f ∈ (t.changes.filter (·.kind == .delete)).map (·.path), l = t.physical f := by
  by_cases tombstoned : ∃ q, l = t.physical q ∧ t.staged? q = some .deleted
  · obtain ⟨q, rfl, deleted⟩ := tombstoned
    exact .inr ⟨q, List.mem_map.mpr ⟨_, delete_mem_deletes unique deleted, rfl⟩, rfl⟩
  · exact .inl ((kept l b).mpr ⟨tombstoned, file⟩)

/-- After the writes the disk holds the view: a written path has its staged bytes, and every
other live path is neither written nor tombstoned, so its disk file was kept and the view reads
it. -/
theorem Written.holdsView (layered : t.Layered) (kept : FilesKept t d₂)
    (written : Written t d₂ (t.changes.filter (·.kind != .delete)) d) : HoldsView t d := by
  intro l b inside
  rw [written.files l b]
  constructor
  · rintro (⟨ch, _, rfl, liveCh⟩ | ⟨unwritten, file⟩)
    · exact ⟨ch.path, rfl, liveCh⟩
    · obtain ⟨untombed, onDisk⟩ := (kept l b).mp file
      obtain ⟨q, rfl⟩ := layered.path_of_file onDisk inside
      have unchanged :=
        unchanged_of_unwritten fun ch member same => unwritten ch member (same ▸ rfl)
      refine ⟨q, rfl, ?_⟩
      rw [layered.view_of_unwritten unchanged fun deleted => untombed ⟨q, rfl, deleted⟩]
      exact diskFile_eq_some_iff.mpr onDisk
  · rintro ⟨q, rfl, liveQ⟩
    by_cases rewritten : ∃ ch ∈ t.changes.filter (·.kind != .delete), ch.path = q
    · obtain ⟨ch, member, rfl⟩ := rewritten
      exact .inl ⟨ch, member, rfl, liveQ⟩
    · have untombed : t.staged? q ≠ some .deleted := fun deleted => by
        simp [view, deleted] at liveQ
      have unchanged := unchanged_of_unwritten fun ch member same => rewritten ⟨ch, member, same⟩
      have onDisk : t.disk.get? (t.physical q) = some (.file b) := by
        rw [← diskFile_eq_some_iff, ← layered.view_of_unwritten unchanged untombed]
        exact liveQ
      refine .inr ⟨fun ch member same => rewritten ⟨ch, member, (physical_inj.mp same).symm⟩,
        (kept _ b).mpr ⟨?_, onDisk⟩⟩
      rintro ⟨q', same, deleted⟩
      exact untombed (physical_inj.mp same ▸ deleted)

theorem HoldsView.dirsOfView (shaped : d.Shaped) (holds : HoldsView t d)
    (filled : d.Filled t.base) : DirsOfView t d := by
  intro l inside notBase
  constructor
  · intro dir
    obtain ⟨l', b, under, file⟩ := filled l inside notBase dir
    obtain ⟨q, rfl, liveQ⟩ := (holds _ b (inside.trans under)).mp file
    have notFile : l ≠ t.physical q := by
      rintro rfl
      simp [file] at dir
    have longer : t.base.length < l.length := length_lt_of_prefix_ne inside (Ne.symm notBase)
    have cut : ∃ a : Path, l = t.physical a := ⟨⟨q.segments.take (l.length - t.base.length)⟩, by
      rw [← physical_take, Nat.add_sub_cancel' longer.le]
      exact List.prefix_iff_eq_take.mp under⟩
    obtain ⟨a, rfl⟩ := cut
    exact ⟨_, rfl, q, by simp [liveQ], physical_isBelow_iff.mp ⟨under,
      Nat.lt_of_le_of_ne under.length_le fun same => notFile (under.eq_of_length same)⟩⟩
  · rintro ⟨a, rfl, q, liveQ, below⟩
    obtain ⟨b, viewQ⟩ := Option.isSome_iff_exists.mp liveQ
    obtain ⟨above, shorter⟩ := physical_isBelow_iff.mpr below
    have file := (holds _ b (inside.trans above)).mpr ⟨q, rfl, viewQ⟩
    rw [List.prefix_iff_eq_take.mp above]
    exact get?_take shaped file shorter

/-- What a commit's disk steps leave when they succeed: a disk holding the view, with every
directory holding a file when pruning had that to start from, and the counts of the changes. -/
structure Materialized (t : StagedTree) (report : CommitReport) (d : Disk) : Prop where
  shaped : d.Shaped
  holdsView : HoldsView t d
  filled : t.settings.pruneEmptyDirs = true → t.disk.Filled t.base → d.Filled t.base
  filesWritten : report.filesWritten = (t.changes.filter (·.kind != .delete)).length
  filesDeleted : report.filesDeleted = (t.changes.filter (·.kind == .delete)).length
  bytesWritten : report.bytesWritten =
    ((t.changes.filter (·.kind != .delete)).flatMap fun ch => (t.view ch.path).getD []).length

theorem Layered.writes_ends (layered : t.Layered) {report : CommitReport}
    (shaped : d₂.Shaped) (kept : FilesKept t d₂)
    (counted : report.filesWritten = 0 ∧
      report.filesDeleted = (t.changes.filter (·.kind == .delete)).length ∧
      report.bytesWritten = 0)
    (filled : t.settings.pruneEmptyDirs = true → t.disk.Filled t.base → d₂.Filled t.base) :
    Ends (t.writeChanged (t.changes.filter (·.kind != .delete)) report) d₂ (Materialized t)
      (fun e => (∃ os, e = .io os) ∧
        ¬(t.settings.pruneEmptyDirs = true ∧ t.disk.Filled t.base)) := by
  have unique := layered.keysUnique
  have liveWrites : ∀ ch ∈ t.changes.filter (·.kind != .delete), (t.view ch.path).isSome :=
    fun ch member => by
      obtain ⟨c, staged⟩ := content_of_mem_writes unique member
      simp [view_of_content staged]
  refine (writeChanged_ends report layered shaped
    (fun _ member => content_of_mem_writes unique member)
    (fun _ _ file inside => kept.live layered file inside) (kept.clear layered)).mono
    (fun r d ⟨written, deleted, bytes, writtenDisk⟩ => ⟨writtenDisk.shaped,
      writtenDisk.holdsView layered kept,
      fun prune filledDisk => writtenDisk.filled liveWrites (filled prune filledDisk),
      by omega, by omega, by omega⟩)
    fun _ ⟨io, unfilled⟩ => ⟨io, fun ⟨prune, filledDisk⟩ => unfilled (filled prune filledDisk)⟩

/-- A commit's disk steps, on a layered tree, either leave the view on disk with the counts
of the changes, or fail with the system's error, which a filled disk with pruning never
gives. -/
theorem Layered.commitSteps_ends (layered : t.Layered) :
    Ends t.commitSteps t.disk (Materialized t)
      (fun e => (∃ os, e = .io os) ∧
        ¬(t.settings.pruneEmptyDirs = true ∧ t.disk.Filled t.base)) := by
  have unique := layered.keysUnique
  have shaped := layered.workspace.toShaped
  unfold commitSteps
  dsimp only
  split
  · rename_i empty
    have none : t.changes = [] := List.isEmpty_iff.mp empty
    have kept : FilesKept t t.disk := fun l b =>
      ⟨fun file => ⟨fun ⟨q, _, deleted⟩ => by simpa [none] using delete_mem_changes unique deleted,
        file⟩, fun ⟨_, file⟩ => file⟩
    have written : Written t t.disk (t.changes.filter (·.kind != .delete)) t.disk := by
      rw [none]
      exact Written.start shaped
    exact Ends.pure ⟨shaped, written.holdsView layered kept, fun _ filled => filled,
      by simp [none], by simp [none], by simp [none]⟩
  · refine Ends.bind (layered.removeTombstoned_ends.mono
      (fun r₁ d₁ ⟨written₁, deleted₁, bytes₁, shaped₁, kept₁, dirs₁⟩ => ?_)
      fun _ never => never.elim)
    split
    · rename_i prune
      refine Ends.bind ((pruneDeleted_ends r₁ shaped₁ (layered.above_deletes dirs₁)).mono
        (fun r₂ d₂ ⟨written₂, deleted₂, bytes₂, pruned⟩ => ?_) fun _ never => never.elim)
      have kept₂ : FilesKept t d₂ := fun l b => (pruned.files l b).trans (kept₁ l b)
      exact layered.writes_ends pruned.shaped kept₂ ⟨by omega, by omega, by omega⟩
        fun _ filled => pruned.filled layered filled (fun l dir => (dirs₁ l).mp dir)
          fun _ _ file => kept₁.kept_or_deleted unique file
    · rename_i keep
      exact Ends.bind (Ends.pure (layered.writes_ends shaped₁ kept₁ ⟨written₁, deleted₁, bytes₁⟩
        fun prune => absurd prune keep))

theorem commitSteps_close :
    ({ t with committed := true } : StagedTree).commitSteps = t.commitSteps := rfl

theorem runOn_commit_of_open (open_ : t.committed = false) :
    commit.runOn t = ((t.commitSteps.run.run t.disk).1,
      { t with committed := true, disk := (t.commitSteps.run.run t.disk).2 }) := by
  unfold commit
  rw [TreeStep.runOn_bind_ok (TreeStep.runOn_get t)]
  simp only [open_, Bool.false_eq_true, if_false, commitSteps_close]
  cases t.commitSteps.run.run t.disk with
  | mk result disk =>
    cases result with
    | ok report => rfl
    | error e => rfl

theorem runOn_commit_of_closed (closed : t.committed = true) :
    commit.runOn t = (.error .alreadyCommitted, t) := by
  unfold commit
  rw [TreeStep.runOn_bind_ok (TreeStep.runOn_get t)]
  simp only [closed, if_true]
  rfl

theorem ensureOpen_of_closed (closed : t.committed = true) :
    t.ensureOpen = .error .alreadyCommitted := by
  simp [ensureOpen, closed]

theorem runOn_call_of_closed (closed : t.committed = true) (call : Call) :
    call.step.runOn t = (.error .alreadyCommitted, t) := by
  cases call with
  | write p c =>
    have refused : t.write p c = .error .alreadyCommitted := by
      unfold write
      rw [ensureOpen_of_closed closed]
      rfl
    rw [Call.step, TreeStep.runOn_update, refused]
  | delete p =>
    have refused : t.delete p = .error .alreadyCommitted := by
      unfold delete
      rw [ensureOpen_of_closed closed]
      rfl
    rw [Call.step, TreeStep.runOn_update, refused]
  | rename src dst =>
    rw [Call.step]
    unfold rename
    rw [TreeStep.runOn_bind_ok (TreeStep.runOn_get t), TreeStep.runOn_bind_error]
    rw [TreeStep.runOn_query, ensureOpen_of_closed closed]

/-- What committing a tree does. It closes the tree for good: every later call and commit is
refused and changes nothing. It fails only with the system's error, and when it succeeds the
files below the root are the live view. From a disk whose every directory holds a file, with
pruning, it succeeds, counts the changes, and leaves exactly the directories above live paths. -/
structure CommitsView (t : StagedTree) : Prop where
  closes : ∀ call : Call,
    call.step.runOn (commit.runOn t).2 = (.error .alreadyCommitted, (commit.runOn t).2)
  closesCommit : commit.runOn (commit.runOn t).2 = (.error .alreadyCommitted, (commit.runOn t).2)
  systemErrors : ∀ e, (commit.runOn t).1 = .error e → ∃ os, e = .io os
  holdsView : ∀ report, (commit.runOn t).1 = .ok report → HoldsView t (commit.runOn t).2.disk
  succeeds : t.settings.pruneEmptyDirs = true → t.disk.Filled t.base →
    ∃ report, (commit.runOn t).1 = .ok report ∧ Materialized t report (commit.runOn t).2.disk ∧
      DirsOfView t (commit.runOn t).2.disk

theorem Layered.toCommitsView (layered : t.Layered) (open_ : t.committed = false) :
    t.CommitsView := by
  have closed : (commit.runOn t).2.committed = true := by
    rw [runOn_commit_of_open open_]
  have ends := layered.commitSteps_ends
  have outcome := runOn_commit_of_open open_
  unfold Ends at ends
  generalize t.commitSteps.run.run t.disk = run at ends outcome
  obtain ⟨result, disk⟩ := run
  refine ⟨runOn_call_of_closed closed, runOn_commit_of_closed closed, ?systemErrors, ?holdsView,
    ?succeeds⟩ <;> rw [outcome]
  case systemErrors =>
    intro e failed
    cases result with
    | ok report => cases failed
    | error e' =>
      cases failed
      exact ends.1
  case holdsView =>
    intro r succeeded
    cases result with
    | ok report =>
      cases succeeded
      exact ends.holdsView
    | error e => cases succeeded
  case succeeds =>
    intro prune filled
    cases result with
    | ok report =>
      exact ⟨report, rfl, ends, ends.holdsView.dirsOfView ends.shaped (ends.filled prune filled)⟩
    | error e => exact absurd ⟨prune, filled⟩ ends.2

/-- Committing any open tree that a session reaches, whatever paths its calls name, writes its
live view to disk and closes it. -/
theorem Reached.commitsView (reached : t.Reached) (open_ : t.committed = false) :
    t.CommitsView :=
  reached.layered.toCommitsView open_

/-- A session over a disk holding the file `pkg/a` that deletes it and writes its bytes to
`lib /a`, a path whose first segment ends in a blank. -/
theorem Reached.commitsView_after_delete_and_padded_write :
    Reached ((Call.write ⟨["lib ", "a"]⟩ [120]).step.runOn
      ((Call.delete ⟨["pkg", "a"]⟩).step.runOn
        { disk := ⟨[([.text "pkg"], .dir), ([.text "pkg", .text "a"], .file [120])]⟩, base := [],
          settings := {} }).2).2 ∧
    ((Call.write ⟨["lib ", "a"]⟩ [120]).step.runOn
      ((Call.delete ⟨["pkg", "a"]⟩).step.runOn
        { disk := ⟨[([.text "pkg"], .dir), ([.text "pkg", .text "a"], .file [120])]⟩, base := [],
          settings := {} }).2).2.committed = false ∧
    CommitsView ((Call.write ⟨["lib ", "a"]⟩ [120]).step.runOn
      ((Call.delete ⟨["pkg", "a"]⟩).step.runOn
        { disk := ⟨[([.text "pkg"], .dir), ([.text "pkg", .text "a"], .file [120])]⟩, base := [],
          settings := {} }).2).2 := by
  have reached : Reached ((Call.write ⟨["lib ", "a"]⟩ [120]).step.runOn
      ((Call.delete ⟨["pkg", "a"]⟩).step.runOn
        { disk := ⟨[([.text "pkg"], .dir), ([.text "pkg", .text "a"], .file [120])]⟩, base := [],
          settings := {} }).2).2 :=
    .call _ (.call _ (.fresh ⟨⟨by decide, by decide⟩, by decide, by decide⟩ {}))
  exact ⟨reached, by decide, Reached.commitsView reached (by decide)⟩

/- The commit deletes `pkg/a`, prunes the emptied `pkg` and writes `lib/a`. -/
example : (commit.runOn ((Call.write ⟨["lib", "a"]⟩ [120]).step.runOn
      ((Call.delete ⟨["pkg", "a"]⟩).step.runOn
        { disk := ⟨[([.text "pkg"], .dir), ([.text "pkg", .text "a"], .file [120])]⟩, base := [],
          settings := {} }).2).2).1 =
    .ok { filesWritten := 1, filesDeleted := 1, dirsPruned := 1, bytesWritten := 1 } := by
  rfl

end Monorepo.StagedTree
