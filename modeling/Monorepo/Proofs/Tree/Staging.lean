import Monorepo.Proofs.Tree.Listing

/-! Staging writes and deletes on a consistent tree. Each keeps the tree consistent and changes
the live view exactly where it says: a write puts its bytes at its path, deleting a file takes
that file away, and deleting a path takes away the path and everything below it. -/

namespace Monorepo.StagedTree

open Monorepo.Tree Utf8

variable {t : StagedTree}

@[simp] theorem diskFile_setStaged (p q : Path) (s : Staged) :
    (t.setStaged p s).diskFile q = t.diskFile q := rfl

@[simp] theorem diskFile_unstage (p q : Path) : (t.unstage p).diskFile q = t.diskFile q := rfl

theorem view_congr {u : StagedTree} {q : Path} (disk : u.disk = t.disk) (base : u.base = t.base)
    (here : u.staged? q = t.staged? q) (above : ∀ a ∈ q.ancestors, u.staged? a = t.staged? a) :
    u.view q = t.view q := by
  have files : ∀ a ∈ q.ancestors, u.stagedFile a = t.stagedFile a := by
    intro a member
    unfold stagedFile
    rw [above a member]
  have covered : (∃ a ∈ q.ancestors, u.stagedFile a = true) ↔
      ∃ a ∈ q.ancestors, t.stagedFile a = true := by
    constructor
    · rintro ⟨a, member, staged⟩
      exact ⟨a, member, by rwa [files a member] at staged⟩
    · rintro ⟨a, member, staged⟩
      exact ⟨a, member, by rwa [files a member]⟩
  have onDisk : u.diskFile q = t.diskFile q := by simp [diskFile, physical, disk, base]
  simp only [view, here, covered, onDisk]

theorem view_setStaged_of_outside {p q : Path} {s : Staged} (other : q ≠ p)
    (outside : p ∉ q.ancestors) : (t.setStaged p s).view q = t.view q := by
  refine view_congr rfl rfl ?_ fun a member => ?_
  · rw [staged?_setStaged, if_neg other]
  · rw [staged?_setStaged, if_neg fun (same : a = p) => outside (same ▸ member)]

theorem view_unstage_of_outside {p q : Path} (other : q ≠ p) (outside : p ∉ q.ancestors) :
    (t.unstage p).view q = t.view q := by
  refine view_congr rfl rfl ?_ fun a member => ?_
  · rw [staged?_unstage, if_neg other]
  · rw [staged?_unstage, if_neg fun (same : a = p) => outside (same ▸ member)]

theorem diskFile_below_file (shaped : t.disk.Shaped) {f q : Path} {c : Bytes}
    (found : t.diskFile f = some c) (under : q.IsBelow f) : t.diskFile q = none := by
  have above : (t.physical q).take (t.base.length + f.length) = t.physical f := by
    rw [physical_take, Path.take_length_of_prefix under.1]
  have file := diskFile_eq_some_iff.mp found
  rw [← above] at file
  have missing := Disk.get?_of_file_above shaped file
    (by rw [physical_length]; exact Nat.add_lt_add_left under.2 _)
  simp [diskFile, missing]

theorem Layered.clear_below (layered : t.Layered) {f q : Path}
    (live : (t.view f).isSome) (under : q.IsBelow f) :
    t.stagedFile q = false ∧ (t.staged? q = none → t.diskFile q = none) := by
  have gone := layered.separate f q live under
  refine ⟨?_, fun unstaged => ?_⟩
  · cases staged : t.stagedFile q with
    | false => rfl
    | true =>
      obtain ⟨c, content⟩ := stagedFile_iff.mp staged
      simp [view_of_content content] at gone
  · cases onDisk : t.diskFile q with
    | none => rfl
    | some c =>
      rcases view_isSome_iff.mp live with stagedF | ⟨-, -, diskF⟩
      · have buried := layered.buried f q stagedF under (by simp [onDisk])
        rw [unstaged] at buried
        cases buried
      · obtain ⟨c', foundF⟩ := Option.isSome_iff_exists.mp diskF
        rw [diskFile_below_file layered.workspace.toShaped foundF under] at onDisk
        cases onDisk

theorem Layered.tombstone_of_dead (layered : t.Layered) {q : Path} (gone : t.view q = none)
    (onDisk : (t.diskFile q).isSome) : t.staged? q = some .deleted := by
  cases staged : t.staged? q with
  | some s =>
    cases s with
    | content c => simp [view_of_content staged] at gone
    | deleted => rfl
  | none =>
    rw [view_of_unstaged staged] at gone
    split at gone
    · rename_i covered
      obtain ⟨a, above, stagedA⟩ := covered
      have buried := layered.buried a q stagedA (Path.mem_ancestors.mp above) onDisk
      rw [staged] at buried
      cases buried
    · simp [gone] at onDisk

theorem Layered.view_above_live (layered : t.Layered) {f a : Path}
    (live : (t.view f).isSome) (under : f.IsBelow a) : t.view a = none := by
  cases above : t.view a with
  | none => rfl
  | some c =>
    have gone := layered.separate a f (by simp [above]) under
    simp [gone] at live

theorem write_eq_ok_iff {p : Path} {c : Bytes} {t' : StagedTree} :
    t.write p c = .ok t' ↔ t.committed = false ∧ p.isRoot = false ∧ t.isDir p = false ∧
      (∀ a ∈ p.ancestors, a.isRoot = false → t.isFile a = false) ∧
      t' = t.setStaged p (.content c) := by
  unfold write ensureOpen
  cases open_ : t.committed
  · cases root : p.isRoot
    · cases dir : t.isDir p
      · simp only [Bool.false_eq_true, if_false, except_ok_bind, true_and]
        rw [except_bind_eq_ok]
        have ancestors : ∀ a : Path, a ∈ (List.range p.length).reverse.map
            (fun k => (⟨p.segments.take k⟩ : Path)) ↔ a ∈ p.ancestors := by
          simp [Path.ancestors]
        constructor
        · rintro ⟨u, looped, done⟩
          have clear := (forIn_checks_eq_ok (fun dir : Path => !dir.isRoot && t.isFile dir)
            (fun x h => by simp [h]) (fun x h => by simp [h])).mp looped
          refine ⟨fun a above notRoot => ?_, by simpa [eq_comm] using done⟩
          simpa [notRoot] using clear a ((ancestors a).mpr above)
        · rintro ⟨clear, rfl⟩
          refine ⟨PUnit.unit, (forIn_checks_eq_ok (fun dir : Path => !dir.isRoot && t.isFile dir)
            (fun x h => by simp [h]) (fun x h => by simp [h])).mpr fun a listed => ?_, rfl⟩
          cases root : a.isRoot
          · simp [clear a ((ancestors a).mp listed) root]
          · simp
      · simp
    · simp
  · simp

private theorem view_above_written {p a : Path} (clear : ∀ a ∈ p.ancestors, a.isRoot = false → t.isFile a = false)
    (layered : t.Layered) (above : a ∈ p.ancestors) : t.view a = none := by
  by_cases root : a.isRoot = true
  · have isRoot : a = Path.root := Path.eq_of_segments (by simpa [Path.isRoot, Path.root] using root)
    rw [isRoot, layered.view_root]
  · have notFile := clear a above (by simpa using root)
    rw [isFile_eq_view] at notFile
    simpa using notFile

theorem Layered.view_write (layered : t.Layered) {p : Path} {c : Bytes}
    {t' : StagedTree} (written : t.write p c = .ok t') (q : Path) :
    t'.view q = if q = p then some c else t.view q := by
  obtain ⟨-, -, dir, -, rfl⟩ := write_eq_ok_iff.mp written
  by_cases same : q = p
  · subst same
    simp [view_of_content (staged?_setStaged q q _ ▸ if_pos rfl)]
  rw [if_neg same]
  by_cases above : p ∈ q.ancestors
  · have under := Path.mem_ancestors.mp above
    have gone : t.view q = none := by
      cases live : t.view q with
      | none => rfl
      | some b =>
        have isDir := layered.isDir_of_below under (by simp [live])
        rw [dir] at isDir
        cases isDir
    rw [gone]
    have here : (t.setStaged p (.content c)).staged? q = t.staged? q := by
      rw [staged?_setStaged, if_neg same]
    cases staged : t.staged? q with
    | some s =>
      cases s with
      | content b => simp [view_of_content staged] at gone
      | deleted => simp [view, here, staged]
    | none =>
      have covered : ∃ a ∈ q.ancestors, (t.setStaged p (.content c)).stagedFile a = true :=
        ⟨p, above, by simp [stagedFile, staged?_setStaged]⟩
      rw [view_of_unstaged (here.trans staged), if_pos covered]
  · exact view_setStaged_of_outside same above

theorem Consistent.view_write (consistent : t.Consistent) {p : Path} {c : Bytes}
    {t' : StagedTree} (written : t.write p c = .ok t') (q : Path) :
    t'.view q = if q = p then some c else t.view q :=
  consistent.toLayered.view_write written q

theorem Layered.after_write (layered : t.Layered) {p : Path} {c : Bytes} {t' : StagedTree}
    (written : t.write p c = .ok t') : t'.Layered := by
  have view' := layered.view_write written
  obtain ⟨-, root, dir, clear, rfl⟩ := write_eq_ok_iff.mp written
  have notRoot : p ≠ Path.root := fun same => by simp [same, Path.isRoot, Path.root] at root
  have noneBelow : ∀ q, q.IsBelow p → t.view q = none := fun q under => by
    cases live : t.view q with
    | none => rfl
    | some b =>
      have isDir := layered.isDir_of_below under (by simp [live])
      rw [dir] at isDir
      cases isDir
  have noneAbove : ∀ a, p.IsBelow a → t.view a = none := fun a under =>
    view_above_written clear layered (Path.mem_ancestors.mpr under)
  refine ⟨layered.workspace, keys_setStaged layered.keysUnique p _, ?_, ?_, ?_, ?_⟩
  · intro e member
    rcases mem_setStaged.mp member with rfl | ⟨old, -⟩
    · exact notRoot
    · exact layered.offRoot e old
  · intro a b liveA under
    rw [view'] at liveA ⊢
    by_cases atP : a = p
    · subst atP
      have other : b ≠ a := fun same => by
        have longer := under.2
        rw [same] at longer
        omega
      rw [if_neg other]
      exact noneBelow b under
    · rw [if_neg atP] at liveA
      have other : b ≠ p := fun same => by
        subst same
        simp [noneAbove a under] at liveA
      rw [if_neg other]
      exact layered.separate a b liveA under
  · intro a b stagedA under onDisk
    by_cases atP : a = p
    · subst atP
      have other : b ≠ a := fun same => by
        have longer := under.2
        rw [same] at longer
        omega
      rw [staged?_setStaged, if_neg other]
      exact layered.tombstone_of_dead (noneBelow b under) onDisk
    · have stagedOld : t.stagedFile a = true := by
        unfold stagedFile at stagedA ⊢
        rwa [staged?_setStaged, if_neg atP] at stagedA
      have other : b ≠ p := fun same => by
        subst same
        obtain ⟨c', content⟩ := stagedFile_iff.mp stagedOld
        have gone := noneAbove a under
        rw [view_of_content content] at gone
        cases gone
      rw [staged?_setStaged, if_neg other]
      exact layered.buried a b stagedOld under onDisk
  · intro b deleted
    have other : b ≠ p := fun same => by
      subst same
      simp [staged?_setStaged] at deleted
    rw [staged?_setStaged, if_neg other] at deleted
    exact layered.tombstones b deleted

theorem Consistent.after_write (consistent : t.Consistent) {p : Path} {c : Bytes} {t' : StagedTree}
    (plain : p.Plain) (written : t.write p c = .ok t') : t'.Consistent := by
  refine (consistent.toLayered.after_write written).toConsistent fun e member => ?_
  obtain ⟨-, -, -, -, rfl⟩ := write_eq_ok_iff.mp written
  rcases mem_setStaged.mp member with rfl | ⟨old, -⟩
  · exact plain
  · exact (consistent.keysPlain e old).1

@[simp] theorem diskFile_deleteFile (f q : Path) : (t.deleteFile f).diskFile q = t.diskFile q := by
  unfold deleteFile
  split <;> rfl

theorem staged?_deleteFile (f q : Path) :
    (t.deleteFile f).staged? q =
      if q = f then (if t.disk.isFile (t.physical f) then some .deleted else none)
      else t.staged? q := by
  unfold deleteFile
  by_cases onDisk : t.disk.isFile (t.physical f) = true
  · rw [if_pos onDisk, staged?_setStaged]
    simp [onDisk]
  · rw [if_neg onDisk, staged?_unstage]
    simp [onDisk]

theorem Layered.view_deleteFile (layered : t.Layered) {f : Path}
    (live : (t.view f).isSome) (q : Path) :
    (t.deleteFile f).view q = if q = f then none else t.view q := by
  by_cases same : q = f
  · subst same
    rw [if_pos rfl]
    by_cases onDisk : t.disk.isFile (t.physical q) = true
    · have tomb : (t.deleteFile q).staged? q = some .deleted := by
        simp [staged?_deleteFile, onDisk]
      simp [view, tomb]
    · have unstaged : (t.deleteFile q).staged? q = none := by simp [staged?_deleteFile, onDisk]
      have offDisk : t.diskFile q = none := by
        cases found : t.diskFile q with
        | none => rfl
        | some c => exact absurd (diskFile_isSome_iff.mp (by simp [found])) onDisk
      rw [view_of_unstaged unstaged, diskFile_deleteFile, offDisk]
      simp
  rw [if_neg same]
  by_cases above : f ∈ q.ancestors
  · have under := Path.mem_ancestors.mp above
    rw [layered.separate f q live under]
    obtain ⟨notStaged, offDisk⟩ := layered.clear_below live under
    have here : (t.deleteFile f).staged? q = t.staged? q := by
      rw [staged?_deleteFile, if_neg same]
    cases staged : t.staged? q with
    | some s =>
      cases s with
      | content c => simp [stagedFile, staged] at notStaged
      | deleted => simp [view, here, staged]
    | none =>
      rw [view_of_unstaged (here.trans staged), diskFile_deleteFile, offDisk staged]
      simp
  · unfold deleteFile
    split
    · exact view_setStaged_of_outside same above
    · exact view_unstage_of_outside same above

theorem Consistent.view_deleteFile (consistent : t.Consistent) {f : Path}
    (live : (t.view f).isSome) (q : Path) :
    (t.deleteFile f).view q = if q = f then none else t.view q :=
  consistent.toLayered.view_deleteFile live q

theorem Layered.after_deleteFile (layered : t.Layered) {f : Path} (live : (t.view f).isSome) :
    (t.deleteFile f).Layered := by
  have view' := layered.view_deleteFile live
  have stagedOld : ∀ a, (t.deleteFile f).stagedFile a = true → a ≠ f ∧ t.stagedFile a = true := by
    intro a staged
    unfold stagedFile at staged
    rw [staged?_deleteFile] at staged
    by_cases same : a = f
    · subst same
      rw [if_pos rfl] at staged
      by_cases onDisk : t.disk.isFile (t.physical a) = true <;> simp [onDisk] at staged
    · rw [if_neg same] at staged
      exact ⟨same, staged⟩
  refine ⟨?_, ?_, ?_, ?_, ?_, ?_⟩
  · unfold deleteFile
    split <;> exact layered.workspace
  · unfold deleteFile
    split
    · exact keys_setStaged layered.keysUnique f _
    · exact keys_unstage layered.keysUnique f
  · intro e member
    unfold deleteFile at member
    split at member
    · rcases mem_setStaged.mp member with rfl | ⟨old, -⟩
      · exact layered.ne_root_of_live live
      · exact layered.offRoot e old
    · exact layered.offRoot e (mem_unstage.mp member).1
  · intro a b liveA under
    rw [view'] at liveA ⊢
    by_cases atF : a = f
    · simp [atF] at liveA
    · rw [if_neg atF] at liveA
      by_cases bAtF : b = f
      · rw [if_pos bAtF]
      · rw [if_neg bAtF]
        exact layered.separate a b liveA under
  · intro a b stagedA under onDisk
    obtain ⟨-, stagedBefore⟩ := stagedOld a stagedA
    have other : b ≠ f := fun same => by
      subst same
      obtain ⟨c, content⟩ := stagedFile_iff.mp stagedBefore
      have gone := layered.view_above_live live under
      rw [view_of_content content] at gone
      cases gone
    rw [staged?_deleteFile, if_neg other]
    exact layered.buried a b stagedBefore under (by simpa using onDisk)
  · intro b deleted
    rw [staged?_deleteFile] at deleted
    by_cases same : b = f
    · subst same
      rw [if_pos rfl] at deleted
      split at deleted
      · rename_i onDisk
        simpa using diskFile_isSome_iff.mpr onDisk
      · cases deleted
    · rw [if_neg same] at deleted
      simpa using layered.tombstones b deleted

theorem Layered.after_deleteFile_of_dead (layered : t.Layered) {f : Path} (gone : t.view f = none) :
    (t.deleteFile f).Layered ∧ ∀ q, (t.deleteFile f).view q = t.view q := by
  have notFile : t.stagedFile f = false := by
    cases staged : t.staged? f with
    | none => simp [stagedFile, staged]
    | some s =>
      cases s with
      | content c => simp [view_of_content staged] at gone
      | deleted => simp [stagedFile, staged]
  have stagedFiles : ∀ a, (t.deleteFile f).stagedFile a = t.stagedFile a := by
    intro a
    by_cases same : a = f
    · subst same
      rw [notFile]
      unfold stagedFile
      rw [staged?_deleteFile, if_pos rfl]
      split <;> simp_all
    · unfold stagedFile
      rw [staged?_deleteFile, if_neg same]
  have view' : ∀ q, (t.deleteFile f).view q = t.view q := by
    intro q
    by_cases same : q = f
    · subst same
      rw [gone]
      by_cases onDisk : t.disk.isFile (t.physical q) = true
      · simp [view, staged?_deleteFile, onDisk]
      · have offDisk : t.diskFile q = none := by
          cases found : t.diskFile q with
          | none => rfl
          | some c => exact absurd (diskFile_isSome_iff.mp (by simp [found])) onDisk
        simp [view, staged?_deleteFile, onDisk, offDisk]
    · unfold view
      rw [staged?_deleteFile, if_neg same]
      simp only [stagedFiles, diskFile_deleteFile]
  have rootOff : t.disk.isFile (t.physical Path.root) = false := by
    have top : t.disk.get? (t.physical Path.root) = some .dir := by
      simpa [physical_segments, Path.root] using layered.workspace.top
    have offDisk : t.diskFile Path.root = none := by simp [diskFile, top]
    cases onDisk : t.disk.isFile (t.physical Path.root) with
    | false => rfl
    | true => simp [← diskFile_isSome_iff, offDisk] at onDisk
  refine ⟨⟨?_, ?_, ?_, ?_, ?_, ?_⟩, view'⟩
  · unfold deleteFile
    split <;> exact layered.workspace
  · unfold deleteFile
    split
    · exact keys_setStaged layered.keysUnique f _
    · exact keys_unstage layered.keysUnique f
  · intro e member
    unfold deleteFile at member
    split at member
    · rcases mem_setStaged.mp member with rfl | ⟨old, -⟩
      · rintro rfl
        simp_all
      · exact layered.offRoot e old
    · exact layered.offRoot e (mem_unstage.mp member).1
  · intro a b liveA under
    rw [view'] at liveA ⊢
    exact layered.separate a b liveA under
  · intro a b stagedA under onDisk
    rw [stagedFiles] at stagedA
    rw [diskFile_deleteFile] at onDisk
    rw [staged?_deleteFile]
    split
    · rename_i same
      subst same
      simp [diskFile_isSome_iff.mp onDisk]
    · exact layered.buried a b stagedA under onDisk
  · intro b deleted
    rw [staged?_deleteFile] at deleted
    rw [diskFile_deleteFile]
    split at deleted
    · rename_i same
      subst same
      split at deleted
      · exact diskFile_isSome_iff.mpr ‹_›
      · cases deleted
    · exact layered.tombstones b deleted

theorem Layered.after_deleteFile_any (layered : t.Layered) (f : Path) : (t.deleteFile f).Layered := by
  cases live : t.view f with
  | none => exact (layered.after_deleteFile_of_dead live).1
  | some c => exact layered.after_deleteFile (by simp [live])

theorem Layered.foldl_deleteFile (layered : t.Layered) (files : List Path) :
    (files.foldl deleteFile t).Layered := by
  induction files generalizing t with
  | nil => exact layered
  | cons f rest ih => exact ih (layered.after_deleteFile_any f)

theorem Consistent.after_deleteFile (consistent : t.Consistent) {f : Path} (live : (t.view f).isSome) :
    (t.deleteFile f).Consistent := by
  refine (consistent.toLayered.after_deleteFile live).toConsistent fun e member => ?_
  unfold deleteFile at member
  split at member
  · rcases mem_setStaged.mp member with rfl | ⟨old, -⟩
    · exact (consistent.plain_of_live live).1
    · exact (consistent.keysPlain e old).1
  · exact (consistent.keysPlain e (mem_unstage.mp member).1).1

theorem Consistent.foldl_deleteFile {files : List Path} (consistent : t.Consistent)
    (distinct : files.Nodup) (live : ∀ f ∈ files, (t.view f).isSome) :
    (files.foldl deleteFile t).Consistent ∧
      ∀ q, (files.foldl deleteFile t).view q = if q ∈ files then none else t.view q := by
  induction files generalizing t with
  | nil => exact ⟨consistent, fun q => by simp⟩
  | cons f rest ih =>
    obtain ⟨fresh, distinctRest⟩ := List.nodup_cons.mp distinct
    have liveF := live f (by simp)
    have view' := consistent.view_deleteFile liveF
    have liveRest : ∀ g ∈ rest, ((t.deleteFile f).view g).isSome := by
      intro g member
      have other : g ≠ f := fun same => fresh (same ▸ member)
      rw [view', if_neg other]
      exact live g (by simp [member])
    obtain ⟨consistentRest, viewRest⟩ := ih (consistent.after_deleteFile liveF) distinctRest liveRest
    refine ⟨consistentRest, fun q => ?_⟩
    rw [List.foldl_cons, viewRest, view']
    by_cases inRest : q ∈ rest
    · simp [inRest]
    · by_cases same : q = f <;> simp [inRest, same]

theorem Consistent.delete_eq_foldl (consistent : t.Consistent) {p : Path} {t' : StagedTree}
    (deleted : t.delete p = .ok t') :
    ∃ files : List Path, files.Nodup ∧
      (∀ q, q ∈ files ↔ (t.view q).isSome ∧ (q = p ∨ q.IsBelow p)) ∧
      t' = files.foldl deleteFile t := by
  unfold delete ensureOpen at deleted
  cases open_ : t.committed
  · by_cases file : t.isFile p = true
    · have liveP : (t.view p).isSome := by rwa [isFile_eq_view] at file
      simp [open_, file] at deleted
      refine ⟨[p], List.nodup_singleton p, fun q => ?_, by simp [← deleted]⟩
      constructor
      · intro member
        rw [List.mem_singleton.mp member]
        exact ⟨liveP, .inl rfl⟩
      · rintro ⟨liveQ, same | under⟩
        · simp [same]
        · simp [consistent.separate p q liveP under] at liveQ
    · have gone : t.view p = none := by
        rw [isFile_eq_view] at file
        simpa using file
      by_cases dir : t.isDir p = true
      · obtain ⟨files, walked, sorted, listed⟩ := consistent.walkFiles_of_dead gone
        simp [open_, file, dir, walked] at deleted
        refine ⟨files, Path.nodup_of_pairwise_lt sorted, fun q => ?_, deleted.symm⟩
        rw [listed q]
        constructor
        · rintro ⟨liveQ, under⟩
          exact ⟨liveQ, .inr under⟩
        · rintro ⟨liveQ, same | under⟩
          · subst same
            simp [gone] at liveQ
          · exact ⟨liveQ, under⟩
      · simp [open_, file, dir] at deleted
        refine ⟨[], List.nodup_nil, fun q => ?_, by simp [deleted]⟩
        simp only [List.not_mem_nil, false_iff, not_and]
        rintro liveQ (same | under)
        · subst same
          simp [gone] at liveQ
        · exact dir (consistent.toLayered.isDir_iff.mpr (.inr ⟨q, under, liveQ⟩))
  · simp [open_] at deleted

theorem Consistent.after_delete (consistent : t.Consistent) {p : Path} {t' : StagedTree}
    (deleted : t.delete p = .ok t') : t'.Consistent := by
  obtain ⟨files, distinct, listed, rfl⟩ := consistent.delete_eq_foldl deleted
  exact (consistent.foldl_deleteFile distinct fun f member => ((listed f).mp member).1).1

theorem Layered.after_delete (layered : t.Layered) {p : Path} {t' : StagedTree}
    (deleted : t.delete p = .ok t') : t'.Layered := by
  unfold delete at deleted
  obtain ⟨_, -, deleted⟩ := except_bind_eq_ok.mp deleted
  split at deleted
  · cases deleted
    exact layered.after_deleteFile_any p
  split at deleted
  · obtain ⟨files, -, deleted⟩ := except_bind_eq_ok.mp deleted
    cases deleted
    exact layered.foldl_deleteFile files
  · cases deleted
    exact layered

theorem Consistent.view_delete (consistent : t.Consistent) {p : Path} {t' : StagedTree}
    (deleted : t.delete p = .ok t') (q : Path) :
    t'.view q = if q = p ∨ q.IsBelow p then none else t.view q := by
  obtain ⟨files, distinct, listed, rfl⟩ := consistent.delete_eq_foldl deleted
  rw [(consistent.foldl_deleteFile distinct fun f member => ((listed f).mp member).1).2 q]
  by_cases inside : q = p ∨ q.IsBelow p
  · rw [if_pos inside]
    split
    · rfl
    · rename_i notListed
      cases live : t.view q with
      | none => rfl
      | some c => exact absurd ((listed q).mpr ⟨by simp [live], inside⟩) notListed
  · rw [if_neg inside, if_neg fun member => inside ((listed q).mp member).2]

end Monorepo.StagedTree
