import Monorepo.Proofs.Commit.Prune

/-! The first and last phases of a commit. The deletes remove one file each and nothing else. The
writes make the parent directories of each written path and then write its file; no file stands
in the way of the directories, since every file below the root lies at a live path and no live
path lies below another, so a write fails only where a directory stands at its path, and on a
disk where every directory holds a file none does. -/

namespace Monorepo.StagedTree

open Monorepo.Tree Disk DiskStep Utf8

variable {t : StagedTree} {d : Disk}

theorem removeDeleted_ends {deletes : List Change} (report : CommitReport) (shaped : d.Shaped)
    (distinct : (deletes.map fun ch => t.physical ch.path).Nodup)
    (files : ∀ ch ∈ deletes,
      ch.path ≠ Path.root ∧ ∃ b, d.get? (t.physical ch.path) = some (.file b)) :
    Ends (t.removeDeleted deletes report) d
      (fun r d' => r.filesWritten = report.filesWritten ∧
        r.filesDeleted = report.filesDeleted + deletes.length ∧
        r.bytesWritten = report.bytesWritten ∧ d'.Shaped ∧
        ∀ l, d'.get? l = if l ∈ deletes.map (fun ch => t.physical ch.path) then none else d.get? l)
      (fun _ => False) := by
  unfold removeDeleted
  refine Ends.bind ((Ends.forIn (fun done r d' => r.filesWritten = report.filesWritten ∧
      r.filesDeleted = report.filesDeleted + done.length ∧ r.bytesWritten = report.bytesWritten ∧
      d'.Shaped ∧
      ∀ l, d'.get? l = if l ∈ done.map (fun ch => t.physical ch.path) then none else d.get? l)
    ⟨rfl, rfl, rfl, shaped, fun l => by simp⟩ ?_).mono (fun r d holds => Ends.pure holds)
    fun _ never => never)
  intro done ch rest whole r d' ⟨written, deleted, bytes, shaped', gets⟩
  obtain ⟨notRoot, b, file⟩ := files ch (whole ▸ by simp)
  have fresh : t.physical ch.path ∉ done.map fun ch => t.physical ch.path := by
    rw [← whole, List.map_append, List.map_cons] at distinct
    exact fun member => (List.nodup_append.mp distinct).2.2 _ member _ List.mem_cons_self rfl
  have found : d'.get? (t.physical ch.path) = some (.file b) := by
    rw [gets, if_neg fresh, file]
  dsimp only
  refine Ends.bind (Ends.get ?_)
  rw [removeFile_of_file shaped' (physical_ne_nil notRoot) found]
  dsimp only
  refine Ends.bind (Ends.set (Ends.pure ⟨_, rfl, written, ?_, bytes, shaped'.drop _, fun l => ?_⟩))
  · simp [deleted, Nat.add_assoc]
  · rw [get?_drop_of_leaf shaped' (physical_ne_nil notRoot) (leaf_of_file shaped' found), gets]
    by_cases same : l = t.physical ch.path
    · simp [same]
    · simp [same]

/-- The writes done so far over the disk `d₂` that the deletes and the pruning left: every file
written holds its live bytes and every other file is as on `d₂`, and every new directory lies
strictly above a written path. -/
structure Written (t : StagedTree) (d₂ : Disk) (done : List Change) (d : Disk) : Prop where
  shaped : d.Shaped
  files : ∀ l b, d.get? l = some (.file b) ↔
    (∃ ch ∈ done, l = t.physical ch.path ∧ t.view ch.path = some b) ∨
    ((∀ ch ∈ done, l ≠ t.physical ch.path) ∧ d₂.get? l = some (.file b))
  dirs : ∀ l, d.get? l = some .dir →
    d₂.get? l = some .dir ∨ ∃ ch ∈ done, l <+: t.physical ch.path ∧ l ≠ t.physical ch.path

variable {d₂ : Disk} {done : List Change}

theorem Written.start (shaped : d₂.Shaped) : Written t d₂ [] d₂ where
  shaped := shaped
  files l b := by simp
  dirs _ dir := .inl dir

theorem Written.live (written : Written t d₂ done d)
    (liveDone : ∀ ch ∈ done, (t.view ch.path).isSome)
    (live₂ : ∀ l b, d₂.get? l = some (.file b) → t.base <+: l →
      ∃ q, l = t.physical q ∧ (t.view q).isSome)
    {l : List Name} {b : Bytes} (file : d.get? l = some (.file b)) (inside : t.base <+: l) :
    ∃ q, l = t.physical q ∧ (t.view q).isSome := by
  rcases (written.files l b).mp file with ⟨ch, member, rfl, _⟩ | ⟨_, before⟩
  · exact ⟨ch.path, rfl, liveDone ch member⟩
  · exact live₂ l b before inside

theorem Written.clearAbove (written : Written t d₂ done d)
    (notRoots : ∀ ch ∈ done, ch.path ≠ Path.root)
    (clear₂ : ∀ k ≤ t.base.length, d₂.isFile (t.base.take k) = false) :
    ∀ k ≤ t.base.length, d.isFile (t.base.take k) = false := by
  intro k within
  cases file : d.isFile (t.base.take k) with
  | false => rfl
  | true =>
    obtain ⟨b, found⟩ := isFile_iff.mp file
    rcases (written.files _ b).mp found with ⟨ch, member, same, _⟩ | ⟨_, before⟩
    · have lengths := congrArg List.length same
      have longer : t.base.length < (t.physical ch.path).length :=
        base_length_lt (notRoots ch member)
      rw [List.length_take_of_le within] at lengths
      omega
    · have clear := clear₂ k within
      simp [Disk.isFile, before] at clear

theorem Written.filled (written : Written t d₂ done d)
    (liveDone : ∀ ch ∈ done, (t.view ch.path).isSome) (filled : d₂.Filled t.base) :
    d.Filled t.base := by
  intro l inside notBase dir
  rcases written.dirs l dir with before | ⟨ch, member, above, _⟩
  · obtain ⟨l', b, under, file⟩ := filled l inside notBase before
    by_cases rewritten : ∃ ch ∈ done, l' = t.physical ch.path
    · obtain ⟨ch, member, rfl⟩ := rewritten
      obtain ⟨c, liveC⟩ := Option.isSome_iff_exists.mp (liveDone ch member)
      exact ⟨_, c, under, (written.files _ c).mpr (.inl ⟨ch, member, rfl, liveC⟩)⟩
    · exact ⟨l', b, under, (written.files l' b).mpr
        (.inr ⟨fun ch member same => rewritten ⟨ch, member, same⟩, file⟩)⟩
  · obtain ⟨c, liveC⟩ := Option.isSome_iff_exists.mp (liveDone ch member)
    exact ⟨_, c, above, (written.files _ c).mpr (.inl ⟨ch, member, rfl, liveC⟩)⟩

/-- No file stands above a live path on a disk whose files below the root stand at live paths
and where no file stands at or above the root: a file above it would be a live path above a live
path. -/
theorem isFile_above_live (layered : t.Layered) {p : Path} (liveP : (t.view p).isSome)
    (live : ∀ l b, d.get? l = some (.file b) → t.base <+: l →
      ∃ q, l = t.physical q ∧ (t.view q).isSome)
    (clearAbove : ∀ k ≤ t.base.length, d.isFile (t.base.take k) = false)
    {k : Nat} (shorter : k < (t.physical p).length) : d.isFile ((t.physical p).take k) = false := by
  by_cases inBase : k ≤ t.base.length
  · rw [physical_segments, List.take_append_of_le_length inBase]
    exact clearAbove k inBase
  cases file : d.isFile ((t.physical p).take k) with
  | false => rfl
  | true =>
    obtain ⟨b, found⟩ := isFile_iff.mp file
    obtain ⟨j, rfl⟩ : ∃ j, k = t.base.length + j := ⟨k - t.base.length, by omega⟩
    rw [physical_take] at found
    obtain ⟨q, same, liveQ⟩ := live _ b found (by simp [physical_segments])
    rw [physical_inj] at same
    subst same
    have below : p.IsBelow ⟨p.segments.take j⟩ := by
      refine ⟨List.take_prefix _ _, ?_⟩
      rw [physical_length] at shorter
      simp only [Path.length, List.length_take] at shorter ⊢
      omega
    simp [layered.separate _ p liveQ below] at liveP

/-- A directory where a live file is to be written holds no file: a file in it would be a live
path below a live one, or it was made above a file written before, which is live too. So the disk
before the writes was not one whose every directory holds a file. -/
theorem Written.not_filled (layered : t.Layered) (written : Written t d₂ done d)
    (liveDone : ∀ ch ∈ done, (t.view ch.path).isSome)
    (live₂ : ∀ l b, d₂.get? l = some (.file b) → t.base <+: l →
      ∃ q, l = t.physical q ∧ (t.view q).isSome)
    {p : Path} (liveP : (t.view p).isSome) (notRoot : p ≠ Path.root)
    (isDir : d.get? (t.physical p) = some .dir) : ¬d₂.Filled t.base := by
  intro filled
  have inside : t.base <+: t.physical p := by simp [physical_segments]
  have notBase : t.physical p ≠ t.base := fun same => by
    have longer : t.base.length < (t.physical p).length := base_length_lt notRoot
    rw [same] at longer
    omega
  rcases written.dirs _ isDir with before | ⟨ch', member, above, other⟩
  · obtain ⟨l', b, under, file⟩ := filled _ inside notBase before
    have longer : (t.physical p).length < l'.length :=
      length_lt_of_prefix_ne under fun same => by
        rw [same, file] at before
        cases before
    obtain ⟨q, rfl, liveQ⟩ := live₂ _ b file (inside.trans under)
    have below := physical_isBelow_iff.mp ⟨under, longer⟩
    simp [layered.separate _ q liveP below] at liveQ
  · have below := physical_isBelow_iff.mp ⟨above, length_lt_of_prefix_ne above other⟩
    have gone := layered.separate _ ch'.path liveP below
    have liveCh' := liveDone ch' member
    simp [gone] at liveCh'

theorem Written.write (written : Written t d₂ done d) {ch : Change} {c : Bytes} {d' : Disk}
    (liveCh : t.view ch.path = some c) (notRoot : ch.path ≠ Path.root) (shaped' : d'.Shaped)
    (gets : ∀ q, d'.get? q =
      if q <+: (t.physical ch.path).dropLast then some .dir else d.get? q)
    (noFile : ∀ k ≤ (t.physical ch.path).dropLast.length,
      d.isFile ((t.physical ch.path).dropLast.take k) = false)
    (notDir : d.get? (t.physical ch.path) ≠ some .dir) :
    Written t d₂ (done ++ [ch]) (d'.put (t.physical ch.path) (.file c)) := by
  obtain ⟨parents, atPath⟩ := dirs_of_made (physical_ne_nil notRoot) gets
  have leaf : d'.Leaf (t.physical ch.path) := by
    cases found : d'.get? (t.physical ch.path) with
    | none => exact leaf_of_none shaped' found
    | some e =>
      cases e with
      | file old => exact leaf_of_file shaped' found
      | dir => exact absurd (atPath ▸ found) notDir
  refine ⟨shaped'.put (physical_ne_nil notRoot) parents (.inr leaf), fun l b => ?_, fun l dir => ?_⟩
  · rw [get?_put _ _ (physical_ne_nil notRoot)]
    by_cases same : l = t.physical ch.path
    · subst same
      rw [if_pos rfl]
      constructor
      · intro found
        have equal : c = b := by simpa using found
        exact .inl ⟨ch, by simp, rfl, equal ▸ liveCh⟩
      · rintro (⟨ch', _, same, liveB⟩ | ⟨other, _⟩)
        · rw [physical_inj] at same
          rw [← same, liveCh] at liveB
          rw [Option.some.inj liveB]
        · exact absurd rfl (other ch (by simp))
    · have before : ((∃ ch' ∈ done ++ [ch], l = t.physical ch'.path ∧ t.view ch'.path = some b) ∨
          ((∀ ch' ∈ done ++ [ch], l ≠ t.physical ch'.path) ∧ d₂.get? l = some (.file b))) ↔
          d.get? l = some (.file b) := by
        rw [written.files]
        simp only [List.mem_append, List.mem_singleton]
        constructor
        · rintro (⟨ch', inDone | rfl, at', view'⟩ | ⟨other, kept⟩)
          · exact .inl ⟨ch', inDone, at', view'⟩
          · exact absurd at' same
          · exact .inr ⟨fun ch' member => other ch' (.inl member), kept⟩
        · rintro (⟨ch', member, at', view'⟩ | ⟨other, kept⟩)
          · exact .inl ⟨ch', .inl member, at', view'⟩
          · refine .inr ⟨fun ch' member => ?_, kept⟩
            rcases member with inDone | rfl
            · exact other ch' inDone
            · exact same
      rw [if_neg same, gets, before]
      split
      · rename_i above
        have clear : d.isFile l = false := by
          rw [List.prefix_iff_eq_take.mp above]
          exact noFile _ above.length_le
        constructor
        · intro made
          cases made
        · intro found
          simp [Disk.isFile, found] at clear
      · rfl
  · rw [get?_put _ _ (physical_ne_nil notRoot)] at dir
    by_cases same : l = t.physical ch.path
    · rw [if_pos same] at dir
      cases dir
    rw [if_neg same, gets] at dir
    split at dir
    · rename_i above
      exact .inr ⟨ch, by simp, above.trans (List.dropLast_prefix _), same⟩
    · rcases written.dirs l dir with kept | ⟨ch', member, above, other⟩
      · exact .inl kept
      · exact .inr ⟨ch', List.mem_append_left _ member, above, other⟩

/-- Writing the changed files, each staged with content, fails only with the system's error, and
only where a directory stands at a written path, which no disk whose every directory holds a
file has. It counts the files and bytes written. -/
theorem writeChanged_ends {writes : List Change} (report : CommitReport) (layered : t.Layered)
    (shaped : d₂.Shaped) (contents : ∀ ch ∈ writes, ∃ c, t.staged? ch.path = some (.content c))
    (live₂ : ∀ l b, d₂.get? l = some (.file b) → t.base <+: l →
      ∃ q, l = t.physical q ∧ (t.view q).isSome)
    (clear₂ : ∀ k ≤ t.base.length, d₂.isFile (t.base.take k) = false) :
    Ends (t.writeChanged writes report) d₂
      (fun r d => r.filesWritten = report.filesWritten + writes.length ∧
        r.filesDeleted = report.filesDeleted ∧
        r.bytesWritten = report.bytesWritten +
          (writes.flatMap fun ch => (t.view ch.path).getD []).length ∧
        Written t d₂ writes d)
      (fun e => (∃ os, e = .io os) ∧ ¬d₂.Filled t.base) := by
  unfold writeChanged
  refine Ends.bind ((Ends.forIn (fun done r d =>
      r.filesWritten = report.filesWritten + done.length ∧
      r.filesDeleted = report.filesDeleted ∧
      r.bytesWritten = report.bytesWritten +
        (done.flatMap fun ch => (t.view ch.path).getD []).length ∧
      Written t d₂ done d) ⟨by simp, rfl, by simp, Written.start shaped⟩ ?_).mono
    (fun r d holds => Ends.pure holds) fun _ bad => bad)
  intro done ch rest whole r d ⟨written, deleted, bytes, state⟩
  have liveOf (ch : Change) (member : ch ∈ writes) : (t.view ch.path).isSome := by
    obtain ⟨c, staged⟩ := contents ch member
    simp [view_of_content staged]
  have liveDone (ch : Change) (member : ch ∈ done) : (t.view ch.path).isSome :=
    liveOf ch (whole ▸ List.mem_append_left _ member)
  have notRoots (ch : Change) (member : ch ∈ done) : ch.path ≠ Path.root :=
    layered.ne_root_of_live (liveDone ch member)
  obtain ⟨c, staged⟩ := contents ch (whole ▸ by simp)
  have liveCh : t.view ch.path = some c := view_of_content staged
  have liveSome : (t.view ch.path).isSome := by simp [liveCh]
  have notRoot := layered.ne_root_of_live liveSome
  have content : t.stagedContent ch.path = some c := by simp [stagedContent, staged]
  dsimp only
  rw [content]
  dsimp only
  have noFile : ∀ k ≤ (t.physical ch.path).dropLast.length,
      d.isFile ((t.physical ch.path).dropLast.take k) = false := by
    intro k within
    have shorter : k < (t.physical ch.path).length := by
      rw [List.length_dropLast] at within
      have positive := List.length_pos_of_ne_nil (physical_ne_nil (t := t) notRoot)
      omega
    rw [List.dropLast_eq_take, List.take_take, Nat.min_eq_left (by omega)]
    exact isFile_above_live layered liveSome
      (fun l b file inside => state.live liveDone live₂ file inside)
      (state.clearAbove notRoots clear₂) shorter
  obtain ⟨d', made, shaped', gets⟩ := createDirAll_of_no_file state.shaped noFile
  obtain ⟨parents, atPath⟩ := dirs_of_made (physical_ne_nil notRoot) gets
  refine Ends.bind (Ends.onDisk ?_)
  simp only [made, except_map_ok]
  refine Ends.bind (Ends.onDisk ?_)
  by_cases isDir : d.get? (t.physical ch.path) = some .dir
  · have failed : d'.write (t.physical ch.path) c = .error .isDirectory := by
      simp [Disk.write, List.isEmpty_iff, physical_ne_nil notRoot,
        checkParents_eq_ok_iff.mpr parents, atPath, isDir]
    simp only [failed, except_map_error]
    exact ⟨⟨_, rfl⟩, state.not_filled layered liveDone live₂ liveSome notRoot isDir⟩
  · have wrote := write_of_parents c (physical_ne_nil notRoot) parents (atPath ▸ isDir)
    simp only [wrote, except_map_ok]
    exact Ends.pure ⟨_, rfl, by simp [written, Nat.add_assoc], deleted,
      by simp [bytes, liveCh, Nat.add_assoc], state.write liveCh notRoot shaped' gets noFile isDir⟩

end Monorepo.StagedTree
