import Monorepo.Proofs.Tree.Overlay

/-! The live view of a staged tree: a staged file is live, and a file on disk is live unless a
tombstone stands at it or a staged file above it. `Consistent` collects what every tree reached
by writes, deletes and moves keeps; under it each query of the tree answers from the live view. -/

namespace Monorepo.StagedTree

open Monorepo.Tree Utf8

/-- The bytes of the disk file at a workspace path. -/
def diskFile (t : StagedTree) (p : Path) : Option Bytes :=
  match t.disk.get? (t.physical p) with
  | some (.file c) => some c
  | _ => none

/-- The file a workspace path holds once the overlay is laid over the disk. -/
def view (t : StagedTree) (p : Path) : Option Bytes :=
  match t.staged? p with
  | some (.content c) => some c
  | some .deleted => none
  | none => if ∃ a ∈ p.ancestors, t.stagedFile a = true then none else t.diskFile p

/-- What every tree reached by writes, deletes and moves keeps: the disk is a workspace, the
overlay holds each plain path once, no live file lies below another, every disk file below a
staged file is tombstoned, and tombstones stand only on disk files. -/
structure Consistent (t : StagedTree) : Prop where
  workspace : t.disk.Workspace t.base
  keysUnique : (t.overlay.map (·.1)).Nodup
  keysPlain : ∀ e ∈ t.overlay, e.1.Plain ∧ e.1 ≠ Path.root
  separate : ∀ p q, (t.view p).isSome → q.IsBelow p → t.view q = none
  buried : ∀ p q, t.stagedFile p = true → q.IsBelow p → (t.diskFile q).isSome →
    t.staged? q = some .deleted
  tombstones : ∀ p, t.staged? p = some .deleted → (t.diskFile p).isSome

/-- What writes, deletes and moves keep whatever paths they stage: `Consistent` without the
plainness of the overlay's paths, which only the queries that list a directory need. -/
structure Layered (t : StagedTree) : Prop where
  workspace : t.disk.Workspace t.base
  keysUnique : (t.overlay.map (·.1)).Nodup
  offRoot : ∀ e ∈ t.overlay, e.1 ≠ Path.root
  separate : ∀ p q, (t.view p).isSome → q.IsBelow p → t.view q = none
  buried : ∀ p q, t.stagedFile p = true → q.IsBelow p → (t.diskFile q).isSome →
    t.staged? q = some .deleted
  tombstones : ∀ p, t.staged? p = some .deleted → (t.diskFile p).isSome

variable {t : StagedTree}

theorem Consistent.toLayered (consistent : t.Consistent) : t.Layered :=
  ⟨consistent.workspace, consistent.keysUnique, fun e member => (consistent.keysPlain e member).2,
    consistent.separate, consistent.buried, consistent.tombstones⟩

theorem Layered.toConsistent (layered : t.Layered) (plain : ∀ e ∈ t.overlay, e.1.Plain) :
    t.Consistent :=
  ⟨layered.workspace, layered.keysUnique, fun e member => ⟨plain e member, layered.offRoot e member⟩,
    layered.separate, layered.buried, layered.tombstones⟩

theorem shadowed_iff_ancestor {p : Path} :
    t.shadowed p = true ↔ ∃ a ∈ p.ancestors, t.stagedFile a = true := by
  simp [shadowed, Path.ancestors, Path.length]

theorem diskFile_isSome_iff {p : Path} :
    (t.diskFile p).isSome ↔ t.disk.isFile (t.physical p) = true := by
  unfold diskFile Disk.isFile
  split <;> simp_all

theorem view_of_content {p : Path} {c : Bytes} (staged : t.staged? p = some (.content c)) :
    t.view p = some c := by
  simp [view, staged]

theorem view_of_unstaged {p : Path} (unstaged : t.staged? p = none) :
    t.view p = if ∃ a ∈ p.ancestors, t.stagedFile a = true then none else t.diskFile p := by
  simp [view, unstaged]

theorem view_isSome_iff {p : Path} :
    (t.view p).isSome ↔ t.stagedFile p = true ∨
      (t.staged? p = none ∧ (¬∃ a ∈ p.ancestors, t.stagedFile a = true) ∧ (t.diskFile p).isSome) := by
  cases staged : t.staged? p with
  | some s => cases s <;> simp [view, stagedFile, staged]
  | none =>
    have notStaged : t.stagedFile p = false := by simp [stagedFile, staged]
    rw [view_of_unstaged staged]
    by_cases covered : ∃ a ∈ p.ancestors, t.stagedFile a = true <;> simp [covered, notStaged]

theorem isFile_eq_view (p : Path) : t.isFile p = (t.view p).isSome := by
  cases staged : t.staged? p with
  | some s => cases s <;> simp [isFile, view, staged]
  | none =>
    by_cases covered : ∃ a ∈ p.ancestors, t.stagedFile a = true
    · simp [isFile, view, staged, covered, shadowed_iff_ancestor.mpr covered]
    · have uncovered : t.shadowed p = false :=
        Bool.eq_false_iff.mpr fun shadowed => covered (shadowed_iff_ancestor.mp shadowed)
      have onDisk : t.disk.isFile (t.physical p) = true ↔ (t.diskFile p).isSome :=
        diskFile_isSome_iff.symm
      rw [isFile, view_of_unstaged staged, if_neg covered, staged, uncovered]
      simpa using onDisk

theorem isFile_of_read {p : Path} {c : Utf8.Bytes} (read : t.read p = .ok c) :
    t.isFile p = true := by
  unfold StagedTree.read at read
  unfold isFile
  split at read
  · simp_all
  · cases read
  · split at read
    · cases read
    · rename_i uncovered
      split at read
      · rename_i found
        simp [uncovered, Disk.isFile_of_read found]
      · cases read
      · split at read <;> cases read

theorem physical_segments (p : Path) :
    t.physical p = t.base ++ p.segments.map .text := rfl

theorem Consistent.plain_of_live (consistent : t.Consistent) {p : Path}
    (live : (t.view p).isSome) : p.Plain ∧ p ≠ Path.root := by
  unfold view at live
  split at live
  · rename_i c staged
    exact consistent.keysPlain _
      ((staged?_eq_some_iff consistent.keysUnique).mp staged)
  · simp at live
  · split at live
    · simp at live
    · unfold diskFile at live
      split at live
      · rename_i c found
        have root : p ≠ Path.root := by
          rintro rfl
          have top := consistent.workspace.top
          simp [physical_segments, Path.root] at found
          rw [top] at found
          cases found
        have nonempty : t.physical p ≠ [] := by
          intro empty
          apply root
          have : p.segments = [] := by simp [physical_segments] at empty; exact empty.2
          cases p
          simp_all
        have entry := (Disk.get?_eq_some_iff consistent.workspace.toShaped nonempty).mp found
        have names := consistent.workspace.plain _ entry (by simp [physical_segments])
        refine ⟨fun s member => ?_, root⟩
        simpa [Name.Plain] using names (.text s) (by simp [physical_segments, member])
      · simp at live

theorem physical_take (p : Path) (k : Nat) :
    (t.physical p).take (t.base.length + k) = t.physical ⟨p.segments.take k⟩ := by
  rw [physical_segments, physical_segments, List.take_append,
    List.take_of_length_le (by omega)]
  simp [List.map_take]

theorem physical_length (p : Path) : (t.physical p).length = t.base.length + p.length := by
  simp [physical_segments, Path.length]

theorem Layered.dir_of_ancestor (layered : t.Layered) {a q : Path} {e : Entry}
    (found : t.disk.get? (t.physical q) = some e) (above : a ∈ q.ancestors) :
    t.disk.get? (t.physical a) = some .dir := by
  obtain ⟨prefixed, shorter⟩ := Path.mem_ancestors.mp above
  have dir := Disk.get?_take layered.workspace.toShaped found
    (show t.base.length + a.length < (t.physical q).length by
      rw [physical_length]; omega)
  rwa [physical_take, Path.take_length_of_prefix prefixed] at dir

theorem Consistent.file_above_iff (consistent : t.Consistent) {p : Path} :
    (∃ k < (t.physical p).length, t.disk.isFile ((t.physical p).take k) = true) ↔
      ∃ a ∈ p.ancestors, (t.diskFile a).isSome := by
  constructor
  · rintro ⟨k, shorter, isFile⟩
    obtain ⟨c, file⟩ := Disk.isFile_iff.mp isFile
    rcases Nat.lt_or_ge t.base.length k with inside | outside
    · obtain ⟨j, rfl⟩ : ∃ j, k = t.base.length + j := ⟨k - t.base.length, by omega⟩
      rw [physical_length] at shorter
      refine ⟨⟨p.segments.take j⟩, Path.mem_ancestors.mpr ⟨List.take_prefix _ _, ?_⟩, ?_⟩
      · simp [Path.length] at shorter ⊢
        omega
      · rw [physical_take] at file
        simp [diskFile, file]
    · have inBase : (t.physical p).take k = t.base.take k := by
        simp [physical_segments, List.take_append, Nat.sub_eq_zero_of_le outside]
      rw [inBase] at file
      rcases Nat.lt_or_ge k t.base.length with within | whole
      · rw [Disk.get?_take consistent.workspace.toShaped consistent.workspace.top within] at file
        cases file
      · rw [List.take_of_length_le whole, consistent.workspace.top] at file
        cases file
  · rintro ⟨a, above, onDisk⟩
    obtain ⟨prefixed, shorter⟩ := Path.mem_ancestors.mp above
    refine ⟨t.base.length + a.length, by rw [physical_length]; omega, ?_⟩
    rw [physical_take, Path.take_length_of_prefix prefixed]
    exact diskFile_isSome_iff.mp onDisk

private theorem map_text_filterMap {names : List Name} (texts : ∀ n ∈ names, ∃ s, n = .text s) :
    (names.filterMap Name.text?).map .text = names := by
  induction names with
  | nil => rfl
  | cons n more ih =>
    obtain ⟨s, rfl⟩ := texts n (by simp)
    simp [Name.text?, ih fun n' member => texts n' (by simp [member])]

theorem Layered.path_of_entry (layered : t.Layered) {q : List Name} {e : Entry}
    (entry : (q, e) ∈ t.disk.entries) (inside : t.base <+: q) :
    ∃ f : Path, q = t.physical f ∧ f.Plain := by
  obtain ⟨rest, rfl⟩ := inside
  have names := layered.workspace.plain _ entry (List.prefix_append _ _)
  simp only [List.drop_left] at names
  have texts : ∀ n ∈ rest, ∃ s, n = .text s ∧ Path.PlainSegment s := by
    intro n member
    have plain := names n member
    cases n with
    | text s => exact ⟨s, rfl, plain⟩
    | raw _ => exact plain.elim
  refine ⟨⟨rest.filterMap Name.text?⟩, ?_, ?_⟩
  · rw [physical_segments, map_text_filterMap fun n member => (texts n member).imp fun _ => And.left]
  · intro s member
    obtain ⟨n, inRest, found⟩ := List.mem_filterMap.mp member
    obtain ⟨s', rfl, plain⟩ := texts n inRest
    simp only [Name.text?, Option.some.injEq] at found
    exact found ▸ plain

theorem ofPhysical_physical {p : Path} (plain : p.Plain) : t.ofPhysical (t.physical p) = some p := by
  have names : (p.segments.map Name.text).mapM Name.text? = some p.segments := by
    induction p.segments with
    | nil => rfl
    | cons s rest ih => simp [Name.text?, ih]
  simp [ofPhysical, physical_segments, names, Path.parse_intercalate plain]
  rfl

theorem diskFile_eq_some_iff {p : Path} {c : Bytes} :
    t.diskFile p = some c ↔ t.disk.get? (t.physical p) = some (.file c) := by
  unfold diskFile
  split <;> simp_all

theorem Layered.read_of_live (layered : t.Layered) {p : Path} {b : Bytes}
    (found : t.view p = some b) : t.read p = .ok b := by
  cases staged : t.staged? p with
  | some s =>
    cases s with
    | content c =>
      rw [view_of_content staged, Option.some.injEq] at found
      simp [read, staged, found]
    | deleted => simp [view, staged] at found
  | none =>
    rw [view_of_unstaged staged] at found
    split at found
    · cases found
    · rename_i uncovered
      have open_ : t.shadowed p = false :=
        Bool.eq_false_iff.mpr fun shadowed => uncovered (shadowed_iff_ancestor.mp shadowed)
      have onDisk := diskFile_eq_some_iff.mp found
      simp [read, staged, open_, Disk.read_of_file layered.workspace.toShaped onDisk]

/-- Reading a path the live view does not hold fails with "not found", except below a file that
stands on disk and is neither staged over nor hidden, where the system's "not a directory" comes
through. -/
theorem Consistent.read_of_dead (consistent : t.Consistent) {p : Path} (gone : t.view p = none) :
    t.read p = .error (if t.staged? p = none ∧ (¬∃ a ∈ p.ancestors, t.stagedFile a = true) ∧
      ∃ a ∈ p.ancestors, (t.diskFile a).isSome then .io .notDirectory
      else .notFound "File" p.render) := by
  have shaped := consistent.workspace.toShaped
  cases staged : t.staged? p with
  | some s =>
    cases s with
    | content c => simp [view_of_content staged] at gone
    | deleted => simp [read, staged]
  | none =>
    by_cases covered : ∃ a ∈ p.ancestors, t.stagedFile a = true
    · simp [read, staged, shadowed_iff_ancestor.mpr covered, covered]
    have open_ : t.shadowed p = false :=
      Bool.eq_false_iff.mpr fun shadowed => covered (shadowed_iff_ancestor.mp shadowed)
    rw [view_of_unstaged staged, if_neg covered] at gone
    cases found : t.disk.get? (t.physical p) with
    | some e =>
      cases e with
      | file c => simp [diskFile, found] at gone
      | dir =>
        have clear : ¬∃ a ∈ p.ancestors, (t.diskFile a).isSome := by
          rintro ⟨a, above, onDisk⟩
          obtain ⟨k, shorter, isFile⟩ := consistent.file_above_iff.mpr ⟨a, above, onDisk⟩
          obtain ⟨c, file⟩ := Disk.isFile_iff.mp isFile
          rw [Disk.get?_of_file_above shaped file shorter] at found
          cases found
        have isDir : t.disk.isDir (t.physical p) = true := Disk.isDir_iff.mpr found
        simp [read, staged, open_, Disk.read_of_dir shaped found, isDir, clear]
    | none =>
      have notDir : t.disk.isDir (t.physical p) = false := by simp [Disk.isDir, found]
      rw [read, staged]
      simp only [open_, Disk.read_of_none shaped found, consistent.file_above_iff]
      by_cases inTheWay : ∃ a ∈ p.ancestors, (t.diskFile a).isSome
      · simp [inTheWay, notDir, covered]
      · simp [inTheWay]

theorem physical_prefix_iff {p q : Path} :
    t.physical p <+: t.physical q ↔ p.segments <+: q.segments := by
  rw [physical_segments, physical_segments, List.prefix_append_right_inj]
  constructor
  · intro mapped
    obtain ⟨l, under, same⟩ := List.prefix_map_iff.mp mapped
    rwa [(List.map_injective_iff.mpr fun _ _ named => Name.text.inj named) same]
  · exact fun under => under.map _

theorem physical_isBelow_iff {p q : Path} :
    (t.physical p <+: t.physical q ∧ (t.physical p).length < (t.physical q).length) ↔
      q.IsBelow p := by
  simp [physical_prefix_iff, physical_length, Path.IsBelow]

theorem Layered.view_root (layered : t.Layered) : t.view Path.root = none := by
  cases staged : t.staged? Path.root with
  | some s =>
    have entry := (staged?_eq_some_iff layered.keysUnique).mp staged
    exact absurd rfl (layered.offRoot _ entry)
  | none =>
    have top : t.disk.get? (t.physical Path.root) = some .dir := by
      simpa [physical_segments, Path.root] using layered.workspace.top
    have noAncestors : Path.root.ancestors = [] := rfl
    simp [view_of_unstaged staged, noAncestors, diskFile, top]

theorem Layered.ne_root_of_live (layered : t.Layered) {p : Path} (live : (t.view p).isSome) :
    p ≠ Path.root := by
  rintro rfl
  simp [layered.view_root] at live

theorem Layered.plain_of_diskFile (layered : t.Layered) {q : Path} {c : Bytes}
    (found : t.diskFile q = some c) : q.Plain := by
  have onDisk := diskFile_eq_some_iff.mp found
  have nonempty : t.physical q ≠ [] := by
    intro empty
    simp [empty] at onDisk
  have entry := (Disk.get?_eq_some_iff layered.workspace.toShaped nonempty).mp onDisk
  obtain ⟨f, same, plain⟩ := layered.path_of_entry entry (List.prefix_append _ _)
  have names : q.segments.map Name.text = f.segments.map Name.text := by
    simpa [physical_segments] using same
  have segments : q.segments = f.segments :=
    (List.map_injective_iff.mpr fun _ _ named => Name.text.inj named) names
  rwa [Path.eq_of_segments segments]

theorem Layered.view_of_uncovered_below (layered : t.Layered) {p q : Path}
    (under : q.IsBelow p) (noneBelow : t.stagedFilesBelow p = []) (notHere : t.stagedFile p = false)
    (open_ : t.shadowed p = false) :
    t.view q = match t.staged? q with
      | some .deleted => none
      | _ => t.diskFile q := by
  have notStaged : ∀ c, t.staged? q ≠ some (.content c) := by
    intro c staged
    have member := (mem_stagedFilesBelow layered.keysUnique).mpr
      ⟨stagedFile_iff.mpr ⟨c, staged⟩, under⟩
    simp [noneBelow] at member
  cases staged : t.staged? q with
  | some s =>
    cases s with
    | content c => exact absurd staged (notStaged c)
    | deleted => simp [view, staged]
  | none =>
    have uncovered : ¬∃ a ∈ q.ancestors, t.stagedFile a = true := by
      rintro ⟨a, above, stagedA⟩
      rcases Path.ancestor_cases above under with higher | same | lower
      · exact absurd (shadowed_iff_ancestor.mpr ⟨a, higher, stagedA⟩) (by simp [open_])
      · subst same
        simp [notHere] at stagedA
      · have member := (mem_stagedFilesBelow layered.keysUnique).mpr ⟨stagedA, lower⟩
        simp [noneBelow] at member
    simp [view_of_unstaged staged, uncovered]

theorem Layered.isDir_iff (layered : t.Layered) {p : Path} :
    t.isDir p = true ↔ p = Path.root ∨ ∃ q, q.IsBelow p ∧ (t.view q).isSome := by
  have shaped := layered.workspace.toShaped
  by_cases root : p.isRoot = true
  · have isRoot : p = Path.root :=
      Path.eq_of_segments (by simpa [Path.isRoot, Path.root] using root)
    simp only [isDir, root, if_true, true_iff]
    exact .inl isRoot
  have notRoot : p ≠ Path.root := fun same => root (by simp [same, Path.isRoot, Path.root])
  by_cases here : t.stagedFile p = true
  · have live : (t.view p).isSome := by
      obtain ⟨c, staged⟩ := stagedFile_iff.mp here
      simp [view_of_content staged]
    simp only [isDir, root, here, if_true, Bool.false_eq_true, if_false, false_iff, not_or]
    refine ⟨notRoot, fun below => ?_⟩
    obtain ⟨q, under, liveQ⟩ := below
    simp [layered.separate p q live under] at liveQ
  have notHere : t.stagedFile p = false := by simpa using here
  by_cases someBelow : t.stagedFilesBelow p ≠ []
  · obtain ⟨q, member⟩ := List.exists_mem_of_ne_nil _ someBelow
    obtain ⟨stagedQ, under⟩ := (mem_stagedFilesBelow layered.keysUnique).mp member
    obtain ⟨c, contentQ⟩ := stagedFile_iff.mp stagedQ
    have nonempty : (t.stagedFilesBelow p).isEmpty = false := by simpa using someBelow
    simp only [isDir, root, notHere, nonempty, Bool.false_eq_true, if_false, Bool.not_false,
      if_true, true_iff]
    exact .inr ⟨q, under, by simp [view_of_content contentQ]⟩
  have noneBelow : t.stagedFilesBelow p = [] := by simpa using someBelow
  by_cases shadow : t.shadowed p = true
  · obtain ⟨a, above, stagedA⟩ := shadowed_iff_ancestor.mp shadow
    simp only [isDir, root, notHere, noneBelow, shadow, List.isEmpty_nil, Bool.not_true,
      Bool.false_eq_true, if_false, if_true, false_iff, not_or, not_exists, not_and]
    refine ⟨notRoot, fun q under liveQ => ?_⟩
    have covered : ∃ a ∈ q.ancestors, t.stagedFile a = true := by
      exact ⟨a, Path.mem_ancestors.mpr (under.trans (Path.mem_ancestors.mp above)), stagedA⟩
    cases staged : t.staged? q with
    | some s =>
      cases s with
      | content c =>
        have member := (mem_stagedFilesBelow layered.keysUnique).mpr
          ⟨stagedFile_iff.mpr ⟨c, staged⟩, under⟩
        simp [noneBelow] at member
      | deleted => simp [view, staged] at liveQ
    | none => simp [view_of_unstaged staged, covered] at liveQ
  have open_ : t.shadowed p = false := by simpa using shadow
  have below (q : Path) (under : q.IsBelow p) :=
    layered.view_of_uncovered_below under noneBelow notHere open_
  by_cases onDisk : t.disk.isDir (t.physical p) = true
  · simp only [isDir, root, notHere, noneBelow, open_, onDisk, List.isEmpty_nil, Bool.not_true,
      Bool.false_eq_true, if_false, List.any_eq_true]
    constructor
    · rintro ⟨⟨q, e⟩, member, listed⟩
      obtain ⟨entry, inside, longer⟩ := Disk.mem_below.mp member
      cases e with
      | dir => simp at listed
      | file c =>
        obtain ⟨f, rfl, plainF⟩ :=
          layered.path_of_entry entry ((List.prefix_append _ _).trans inside)
        rw [ofPhysical_physical plainF] at listed
        have under : f.IsBelow p := physical_isBelow_iff.mp ⟨inside, longer⟩
        have notDeleted : t.staged? f ≠ some .deleted := by simpa using listed
        have nonempty : t.physical f ≠ [] := List.ne_nil_of_length_pos (by simp only at longer; omega)
        have onDiskF : t.diskFile f = some c :=
          diskFile_eq_some_iff.mpr ((Disk.get?_eq_some_iff shaped nonempty).mpr entry)
        refine .inr ⟨f, under, ?_⟩
        rw [below f under]
        split <;> simp_all
    · rintro (same | ⟨q, under, liveQ⟩)
      · exact absurd same notRoot
      · rw [below q under] at liveQ
        have notDeleted : t.staged? q ≠ some .deleted := by
          intro deleted
          simp [deleted] at liveQ
        have onDiskQ : (t.diskFile q).isSome := by split at liveQ <;> simp_all
        obtain ⟨c, file⟩ := Option.isSome_iff_exists.mp onDiskQ
        have plainQ := layered.plain_of_diskFile file
        have found := diskFile_eq_some_iff.mp file
        have nonempty : t.physical q ≠ [] := by
          intro empty
          simp [empty] at found
        have entry := (Disk.get?_eq_some_iff shaped nonempty).mp found
        refine ⟨(t.physical q, .file c), Disk.mem_below.mpr ⟨entry, ?_⟩, ?_⟩
        · exact physical_isBelow_iff.mpr under
        · simp [ofPhysical_physical plainQ, notDeleted]
  · have notDir : t.disk.isDir (t.physical p) = false := by simpa using onDisk
    simp only [isDir, root, notHere, noneBelow, open_, notDir, List.isEmpty_nil, Bool.not_true,
      Bool.not_false, Bool.false_eq_true, if_false, if_true, false_iff, not_or, not_exists, not_and]
    refine ⟨notRoot, fun q under liveQ => ?_⟩
    rw [below q under] at liveQ
    have onDiskQ : (t.diskFile q).isSome := by split at liveQ <;> simp_all
    obtain ⟨c, file⟩ := Option.isSome_iff_exists.mp onDiskQ
    have dir := layered.dir_of_ancestor (diskFile_eq_some_iff.mp file)
      (Path.mem_ancestors.mpr under)
    exact absurd (Disk.isDir_iff.mpr dir) onDisk

theorem Layered.isDir_of_below (layered : t.Layered) {p q : Path} (under : q.IsBelow p)
    (live : (t.view q).isSome) : t.isDir p = true := by
  have shaped := layered.workspace.toShaped
  unfold isDir
  split
  · rfl
  split
  · rename_i here
    obtain ⟨c, staged⟩ := stagedFile_iff.mp here
    simp [layered.separate p q (by simp [view_of_content staged]) under] at live
  split
  · rfl
  rename_i noneBelow
  have noneBelow : t.stagedFilesBelow p = [] := by simpa using noneBelow
  have notStaged : t.stagedFile q = false := by
    cases staged : t.stagedFile q with
    | false => rfl
    | true =>
      have member := (mem_stagedFilesBelow layered.keysUnique).mpr ⟨staged, under⟩
      simp [noneBelow] at member
  obtain stagedQ | ⟨unstaged, uncovered, onDiskQ⟩ := view_isSome_iff.mp live
  · simp [notStaged] at stagedQ
  obtain ⟨c, file⟩ := Option.isSome_iff_exists.mp onDiskQ
  split
  · rename_i shadow
    obtain ⟨a, above, stagedA⟩ := shadowed_iff_ancestor.mp shadow
    exact absurd ⟨a, Path.mem_ancestors.mpr (under.trans (Path.mem_ancestors.mp above)), stagedA⟩
      uncovered
  split
  · rename_i notDir
    have dir := layered.dir_of_ancestor (diskFile_eq_some_iff.mp file) (Path.mem_ancestors.mpr under)
    simp [Disk.isDir_iff.mpr dir] at notDir
  have found := diskFile_eq_some_iff.mp file
  have nonempty : t.physical q ≠ [] := by
    intro empty
    simp [empty] at found
  have entry := (Disk.get?_eq_some_iff shaped nonempty).mp found
  refine List.any_eq_true.mpr ⟨(t.physical q, .file c), Disk.mem_below.mpr ⟨entry, ?_⟩, ?_⟩
  · exact physical_isBelow_iff.mpr under
  · simp [ofPhysical_physical (layered.plain_of_diskFile file), unstaged]

end Monorepo.StagedTree
