import Mathlib.Algebra.Order.BigOperators.Group.List
import Monorepo.Proofs.Commit.Ends
import Monorepo.Proofs.Disk.Calls
import Monorepo.Proofs.Tree.View

/-! Pruning the directories that deletes leave empty. A climb from a directory removes it and then
each directory above it while they are empty, and stops at the workspace root, at a directory that
still holds something, or at one already gone. Climbs from the parents of all deleted files, one
after the other, leave no directory that holds no file above a deleted file: the last climb
through such a directory finds it empty, or finds it gone. So on a disk where every directory
held a file, every directory left holds one. -/

namespace Monorepo

namespace Disk

/-- A file stands at or below a location. -/
def HoldsFile (d : Disk) (l : List Name) : Prop :=
  ∃ l' c, l <+: l' ∧ d.get? l' = some (.file c)

/-- Every directory strictly below `base` holds a file. -/
def Filled (d : Disk) (base : List Name) : Prop :=
  ∀ l, base <+: l → l ≠ base → d.get? l = some .dir → d.HoldsFile l

/-- A disk is filled when every directory below `base` that holds no file has a directory
inside it that holds none either: following them would go deeper than any entry of a finite
disk. -/
theorem filled_of_descent {d : Disk} {base : List Name} (shaped : d.Shaped)
    (step : ∀ l, base <+: l → l ≠ base → d.get? l = some .dir → ¬d.HoldsFile l →
      ∃ n, d.get? (l ++ [n]) = some .dir ∧ ¬d.HoldsFile (l ++ [n])) :
    d.Filled base := by
  have bounded (l : List Name) (e : Entry) (found : d.get? l = some e) (nonempty : l ≠ []) :
      l.length ≤ (d.entries.map (·.1.length)).sum :=
    List.le_sum_of_mem (List.mem_map.mpr
      ⟨(l, e), (get?_eq_some_iff shaped nonempty).mp found, rfl⟩)
  have descent : ∀ k l, (d.entries.map (·.1.length)).sum - l.length ≤ k → base <+: l →
      l ≠ base → d.get? l = some .dir → ¬d.HoldsFile l → False := by
    intro k
    induction k with
    | zero =>
      intro l short inside notBase dir empty
      obtain ⟨n, child, -⟩ := step l inside notBase dir empty
      have deeper := bounded _ _ child (by simp)
      simp only [List.length_append, List.length_singleton] at deeper
      omega
    | succ k ih =>
      intro l short inside notBase dir empty
      obtain ⟨n, child, empty'⟩ := step l inside notBase dir empty
      have deeper := bounded _ _ child (by simp)
      simp only [List.length_append, List.length_singleton] at deeper
      have notBase' : l ++ [n] ≠ base := fun same => by
        have lengths := congrArg List.length same
        have shorter := inside.length_le
        simp only [List.length_append, List.length_singleton] at lengths
        omega
      exact ih (l ++ [n]) (by simp only [List.length_append, List.length_singleton]; omega)
        (inside.trans (List.prefix_append _ _)) notBase' child empty'
  intro l inside notBase dir
  by_contra empty
  exact descent _ l le_rfl inside notBase dir empty

end Disk

namespace StagedTree

open Monorepo.Tree Disk DiskStep

variable {t : StagedTree}

theorem physical_inj {p q : Path} : t.physical p = t.physical q ↔ p = q := by
  constructor
  · intro same
    apply Path.eq_of_segments
    rw [physical_segments, physical_segments, List.append_cancel_left_eq] at same
    exact List.map_injective_iff.mpr (fun _ _ named => Name.text.inj named) same
  · rintro rfl
    rfl

theorem physical_ne_nil {p : Path} (notRoot : p ≠ Path.root) : t.physical p ≠ [] := by
  intro empty
  simp only [physical_segments, List.append_eq_nil_iff, List.map_eq_nil_iff] at empty
  exact notRoot (Path.eq_of_segments empty.2)

theorem base_length_lt {p : Path} (notRoot : p ≠ Path.root) :
    t.base.length < (t.physical p).length := by
  have nonempty : p.segments ≠ [] := fun empty => notRoot (Path.eq_of_segments empty)
  have positive := List.length_pos_of_ne_nil nonempty
  rw [physical_length]
  simp only [Path.length]
  omega

theorem isBelow_iff_prefix_dropLast {f a : Path} (notRoot : f ≠ Path.root) :
    f.IsBelow a ↔ a.segments <+: f.segments.dropLast := by
  have nonempty : f.segments ≠ [] := fun empty => notRoot (Path.eq_of_segments empty)
  have positive := List.length_pos_of_ne_nil nonempty
  constructor
  · rintro ⟨above, shorter⟩
    rcases prefix_iff_eq_or_prefix_dropLast.mp above with same | below
    · simp [Path.length, same] at shorter
    · exact below
  · intro below
    have shorter := below.length_le
    rw [List.length_dropLast] at shorter
    exact ⟨below.trans (List.dropLast_prefix _), by simp only [Path.length]; omega⟩

theorem IsBelow.of_above {g c a : Path} (lower : g.IsBelow c) (above : a.segments <+: c.segments) :
    g.IsBelow a :=
  ⟨above.trans lower.1, Nat.lt_of_le_of_lt above.length_le lower.2⟩

/-- What a climb from `c` leaves of the disk `d`: the same files; directories removed only at or
above `c`; nothing changed when `c` was already gone; and every directory at or above `c` that is
still there holds an entry, unless `c` was already gone. -/
structure Climbed (t : StagedTree) (c : Path) (d d' : Disk) : Prop where
  shaped : d'.Shaped
  files : ∀ l b, d'.get? l = some (.file b) ↔ d.get? l = some (.file b)
  removed : ∀ l, d'.get? l = d.get? l ∨
    (d.get? l = some .dir ∧ d'.get? l = none ∧ ∃ a, a.segments <+: c.segments ∧ l = t.physical a)
  untouched : d.get? (t.physical c) = none → d' = d
  stops : ∀ a, a.segments <+: c.segments → a ≠ Path.root → d'.get? (t.physical a) = some .dir →
    d'.childEntries (t.physical a) ≠ [] ∨ d.get? (t.physical c) = none

variable {c : Path} {d d' : Disk}

theorem Climbed.of_stop (shaped : d.Shaped)
    (stop : ∀ a, a.segments <+: c.segments → a ≠ Path.root → d.get? (t.physical a) = some .dir →
      d.childEntries (t.physical a) ≠ [] ∨ d.get? (t.physical c) = none) :
    Climbed t c d d where
  shaped := shaped
  files _ _ := Iff.rfl
  removed _ := .inl rfl
  untouched _ := rfl
  stops := stop

theorem Climbed.at_root (shaped : d.Shaped) : Climbed t Path.root d d :=
  Climbed.of_stop shaped fun _ above notRoot _ =>
    absurd (Path.eq_of_segments (List.prefix_nil.mp above)) notRoot

theorem noFile_parent_of_drop
    (noFile : ∀ k ≤ (t.physical c).length, d.isFile ((t.physical c).take k) = false) :
    ∀ k ≤ (t.physical ⟨c.segments.dropLast⟩).length,
      (d.drop (t.physical c)).isFile ((t.physical ⟨c.segments.dropLast⟩).take k) = false := by
  intro k shorter
  have above : t.physical ⟨c.segments.dropLast⟩ <+: t.physical c :=
    physical_prefix_iff.mpr (List.dropLast_prefix _)
  have within : k ≤ (t.physical c).length := le_trans shorter above.length_le
  have same : (t.physical ⟨c.segments.dropLast⟩).take k = (t.physical c).take k := by
    rw [List.prefix_iff_eq_take.mp above, List.take_take,
      Nat.min_eq_left (by simpa using shorter)]
  rw [same]
  cases file : (d.drop (t.physical c)).isFile ((t.physical c).take k) with
  | false => rfl
  | true =>
    have kept := isFile_of_isFile_drop file
    rw [noFile k within] at kept
    cases kept

theorem Climbed.after_remove (shaped : d.Shaped) (found : d.get? (t.physical c) = some .dir)
    (empty : d.childEntries (t.physical c) = []) (notRoot : c ≠ Path.root)
    (rest : Climbed t ⟨c.segments.dropLast⟩ (d.drop (t.physical c)) d') : Climbed t c d d' := by
  have dropped :=
    get?_drop_of_leaf shaped (physical_ne_nil notRoot) (leaf_of_childEntries shaped empty)
  have gone : d'.get? (t.physical c) = none := by
    rcases rest.removed (t.physical c) with same | ⟨dir, _⟩
    · rw [same, dropped, if_pos rfl]
    · rw [dropped, if_pos rfl] at dir
      cases dir
  have parentDir : d.get? (t.physical ⟨c.segments.dropLast⟩) = some .dir :=
    get?_of_prefix_dir shaped found (physical_prefix_iff.mpr (List.dropLast_prefix _))
  have parentOther : t.physical ⟨c.segments.dropLast⟩ ≠ t.physical c := fun same => by
    rw [physical_inj] at same
    have lengths := congrArg List.length (congrArg Path.segments same)
    have nonempty : c.segments ≠ [] := fun empty => notRoot (Path.eq_of_segments empty)
    have positive := List.length_pos_of_ne_nil nonempty
    rw [List.length_dropLast] at lengths
    omega
  refine ⟨rest.shaped, fun l b => ?_, fun l => ?_, fun missing => ?_,
    fun a above notRootA dir => ?_⟩
  · rw [rest.files, dropped]
    split
    · rename_i atC
      subst atC
      simp [found]
    · rfl
  · rcases rest.removed l with same | ⟨dir, none', a, above, rfl⟩
    · by_cases atC : l = t.physical c
      · subst atC
        exact .inr ⟨found, gone, c, List.prefix_refl _, rfl⟩
      · rw [same, dropped, if_neg atC]
        exact .inl rfl
    · have notC : t.physical a ≠ t.physical c := fun same => by
        rw [same, dropped, if_pos rfl] at dir
        cases dir
      rw [dropped, if_neg notC] at dir
      exact .inr ⟨dir, none', a, above.trans (List.dropLast_prefix _), rfl⟩
  · rw [found] at missing
    cases missing
  · have notC : a ≠ c := by
      rintro rfl
      rw [gone] at dir
      cases dir
    have aboveParent : a.segments <+: c.segments.dropLast :=
      (prefix_iff_eq_or_prefix_dropLast.mp above).resolve_left fun same =>
        notC (Path.eq_of_segments same)
    rcases rest.stops a aboveParent notRootA dir with holds | missing
    · exact .inl holds
    · rw [dropped, if_neg parentOther, parentDir] at missing
      cases missing

/-- A climb from a directory whose locations up to the disk root hold no file removes
directories and nothing else, and leaves every directory on its way that is still there holding
an entry; the induction is on the fuel, one level per step. -/
theorem climb (t : StagedTree) (fuel : Nat) : ∀ (c : Path) (n : Nat) (d : Disk), d.Shaped →
    c.length ≤ fuel → (∀ k ≤ (t.physical c).length, d.isFile ((t.physical c).take k) = false) →
    Ends (pruneEmptyParents.go t.base fuel (some c) n) d (fun _ d' => Climbed t c d d')
      (fun _ => False) := by
  induction fuel with
  | zero =>
    intro c n d shaped short _
    have root : c = Path.root :=
      Path.eq_of_segments (List.eq_nil_of_length_eq_zero (Nat.le_zero.mp short))
    subst root
    exact Ends.pure (Climbed.at_root shaped)
  | succ fuel ih =>
    intro c n d shaped short noFile
    by_cases root : c.isRoot = true
    · have isRoot : c = Path.root :=
        Path.eq_of_segments (by simpa [Path.isRoot, Path.root] using root)
      subst isRoot
      simp only [pruneEmptyParents.go, root, if_true]
      exact Ends.pure (Climbed.at_root shaped)
    have notRoot : c ≠ Path.root := fun same => root (by simp [same, Path.isRoot, Path.root])
    simp only [pruneEmptyParents.go, root, Bool.false_eq_true, if_false]
    refine Ends.bind (Ends.get ?_)
    rw [← physical_segments]
    cases found : d.get? (t.physical c) with
    | none =>
      rw [readDir_of_none found fun k shorter => noFile k shorter.le]
      dsimp only
      refine Ends.bind (Ends.pure ?_)
      simp only [Bool.not_false, if_true]
      exact Ends.pure (Climbed.of_stop shaped fun _ _ _ _ => .inr found)
    | some e =>
      cases e with
      | file b =>
        have file := noFile _ le_rfl
        simp [Disk.isFile, found] at file
      | dir =>
        rw [readDir_of_dir shaped found]
        dsimp only
        refine Ends.bind (Ends.pure ?_)
        by_cases empty : d.childEntries (t.physical c) = []
        · simp only [empty, List.map_nil, List.isEmpty_nil, Bool.not_true, Bool.false_eq_true,
            if_false]
          refine Ends.bind (Ends.onDisk ?_)
          simp only [removeDir_of_empty shaped (physical_ne_nil notRoot) found empty, except_map_ok]
          have parent : c.parent = some ⟨c.segments.dropLast⟩ := by
            have nonempty : c.segments.isEmpty = false := by simpa [Path.isRoot] using root
            simp [Path.parent, nonempty]
          rw [parent]
          have shortParent : (⟨c.segments.dropLast⟩ : Path).length ≤ fuel := by
            simp only [Path.length, List.length_dropLast] at short ⊢
            omega
          exact (ih _ (n + 1) _ (shaped.drop _) shortParent (noFile_parent_of_drop noFile)).mono
            (fun _ _ rest => Climbed.after_remove shaped found empty notRoot rest)
            fun _ never => never
        · have holds : ((d.childEntries (t.physical c)).map (·.1)).isEmpty = false := by
            simpa using empty
          simp only [holds, Bool.not_false, if_true]
          refine Ends.pure (Climbed.of_stop shaped fun a above notRootA _ => .inl ?_)
          by_cases same : a = c
          · rw [same]
            exact empty
          · refine childEntries_ne_nil_of_below shaped found (physical_prefix_iff.mpr above) ?_
            rw [physical_length, physical_length]
            have := length_lt_of_prefix_ne above fun seg => same (Path.eq_of_segments seg)
            simp only [Path.length]
            omega

/-- The pruning after the deletes of `done`, from the disk `d₁` that the deletes left: the same
files; directories removed only above deleted paths; and every directory above a deleted path that
is still there and holds no file keeps a directory inside it. -/
structure Pruned (t : StagedTree) (d₁ : Disk) (done : List Path) (d : Disk) : Prop where
  shaped : d.Shaped
  files : ∀ l b, d.get? l = some (.file b) ↔ d₁.get? l = some (.file b)
  removed : ∀ l, d.get? l = d₁.get? l ∨
    (d₁.get? l = some .dir ∧ d.get? l = none ∧ ∃ f ∈ done, ∃ a, f.IsBelow a ∧ l = t.physical a)
  kept : ∀ a, (∃ f ∈ done, f.IsBelow a) → a ≠ Path.root → d.get? (t.physical a) = some .dir →
    ¬d.HoldsFile (t.physical a) → ∃ n, d.get? (t.physical a ++ [n]) = some .dir

variable {d₁ : Disk} {done : List Path}

theorem Pruned.start (shaped : d₁.Shaped) : Pruned t d₁ [] d₁ where
  shaped := shaped
  files _ _ := Iff.rfl
  removed _ := .inl rfl
  kept _ above := by simp at above

theorem dir_of_childEntries {l : List Name} (shaped : d.Shaped) (empty : ¬d.HoldsFile l)
    (listed : d.childEntries l ≠ []) : ∃ n, d.get? (l ++ [n]) = some .dir := by
  obtain ⟨⟨n, e⟩, member⟩ := List.exists_mem_of_ne_nil _ listed
  have entry := (get?_eq_some_iff shaped (by simp)).mpr (mem_childEntries.mp member)
  cases e with
  | dir => exact ⟨n, entry⟩
  | file b => exact absurd ⟨l ++ [n], b, List.prefix_append _ _, entry⟩ empty

theorem Pruned.climb {f : Path} (pruned : Pruned t d₁ done d) (notRoot : f ≠ Path.root)
    (dirs : ∀ a, f.IsBelow a → d₁.get? (t.physical a) = some .dir)
    (climbed : Climbed t ⟨f.segments.dropLast⟩ d d') : Pruned t d₁ (done ++ [f]) d' := by
  have chain (a : Path) : a.segments <+: f.segments.dropLast ↔ f.IsBelow a :=
    (isBelow_iff_prefix_dropLast notRoot).symm
  refine ⟨climbed.shaped, fun l b => (climbed.files l b).trans (pruned.files l b), fun l => ?_,
    fun a above notRootA dir empty => ?_⟩
  · rcases climbed.removed l with same | ⟨dir, none', a, onChain, rfl⟩
    · rcases pruned.removed l with same₁ | ⟨dir₁, none₁, g, member, b, below, atB⟩
      · exact .inl (same.trans same₁)
      · exact .inr ⟨dir₁, same ▸ none₁, g, List.mem_append_left _ member, b, below, atB⟩
    · have dir₁ : d₁.get? (t.physical a) = some .dir := by
        rcases pruned.removed (t.physical a) with same₁ | ⟨_, none₁, _⟩
        · exact same₁ ▸ dir
        · rw [none₁] at dir
          cases dir
      exact .inr ⟨dir₁, none', f, by simp, a, (chain a).mp onChain, rfl⟩
  · have empty' : ¬d.HoldsFile (t.physical a) := fun ⟨l', b, under, file⟩ =>
      empty ⟨l', b, under, (climbed.files l' b).mpr file⟩
    have before : d.get? (t.physical a) = some .dir := by
      rcases climbed.removed (t.physical a) with same | ⟨_, none', _⟩
      · exact same ▸ dir
      · rw [none'] at dir
        cases dir
    by_cases onChain : f.IsBelow a
    · rcases climbed.stops a ((chain a).mpr onChain) notRootA dir with listed | missing
      · exact dir_of_childEntries climbed.shaped empty listed
      · have unchanged := climbed.untouched missing
        subst unchanged
        have parentBelow : f.IsBelow ⟨f.segments.dropLast⟩ := (chain _).mp (List.prefix_refl _)
        rcases pruned.removed (t.physical ⟨f.segments.dropLast⟩) with
          same₁ | ⟨_, _, g, member, b, below, atB⟩
        · rw [same₁, dirs _ parentBelow] at missing
          cases missing
        · rw [physical_inj] at atB
          subst atB
          exact pruned.kept a ⟨g, member, IsBelow.of_above below ((chain a).mpr onChain)⟩
            notRootA before empty'
    · obtain ⟨g, member, below⟩ := above
      have earlier : g ∈ done := by
        rcases List.mem_append.mp member with earlier | last
        · exact earlier
        · rw [List.mem_singleton.mp last] at below
          exact absurd below onChain
      obtain ⟨n, child⟩ := pruned.kept a ⟨g, earlier, below⟩ notRootA before empty'
      refine ⟨n, ?_⟩
      rcases climbed.removed (t.physical a ++ [n]) with same | ⟨_, _, b, onChainB, atB⟩
      · exact same ▸ child
      · have aboveB : a.segments <+: b.segments :=
          physical_prefix_iff.mp (atB ▸ List.prefix_append _ _)
        exact absurd ((chain a).mp (aboveB.trans onChainB)) onChain

theorem pruneDeleted_ends {deletes : List Change} (report : CommitReport) (shaped : d₁.Shaped)
    (above : ∀ ch ∈ deletes, ch.path ≠ Path.root ∧
      ∀ k < (t.physical ch.path).length, d₁.get? ((t.physical ch.path).take k) = some .dir) :
    Ends (t.pruneDeleted deletes report) d₁
      (fun r d => r.filesWritten = report.filesWritten ∧ r.filesDeleted = report.filesDeleted ∧
        r.bytesWritten = report.bytesWritten ∧ Pruned t d₁ (deletes.map (·.path)) d)
      (fun _ => False) := by
  unfold pruneDeleted
  refine Ends.bind ((Ends.forIn (fun done r d => r.filesWritten = report.filesWritten ∧
      r.filesDeleted = report.filesDeleted ∧ r.bytesWritten = report.bytesWritten ∧
      Pruned t d₁ (done.map (·.path)) d) ⟨rfl, rfl, rfl, Pruned.start shaped⟩ ?_).mono
    (fun r d holds => Ends.pure holds) fun _ never => never)
  intro done ch rest whole r d ⟨written, deleted, bytes, pruned⟩
  obtain ⟨notRoot, dirsAbove⟩ := above ch (whole ▸ by simp)
  have dirs (a : Path) (below : ch.path.IsBelow a) : d₁.get? (t.physical a) = some .dir := by
    obtain ⟨prefixed, longer⟩ := physical_isBelow_iff.mpr below
    rw [List.prefix_iff_eq_take.mp prefixed]
    exact dirsAbove _ longer
  have noFileAt (l : List Name) (dir : d₁.get? l = some .dir) : d.isFile l = false := by
    cases file : d.isFile l with
    | false => rfl
    | true =>
      obtain ⟨b, found⟩ := isFile_iff.mp file
      rw [(pruned.files l b).mp found] at dir
      cases dir
  have nonempty : ch.path.segments ≠ [] := fun empty => notRoot (Path.eq_of_segments empty)
  have positive := List.length_pos_of_ne_nil nonempty
  have parent : ch.path.parent = some ⟨ch.path.segments.dropLast⟩ := by
    have notEmpty : ch.path.segments.isEmpty = false := by simpa using nonempty
    simp [Path.parent, notEmpty]
  have parentAbove : t.physical ⟨ch.path.segments.dropLast⟩ <+: t.physical ch.path :=
    physical_prefix_iff.mpr (List.dropLast_prefix _)
  have parentLength : (t.physical ⟨ch.path.segments.dropLast⟩).length + 1 =
      (t.physical ch.path).length := by
    simp only [physical_length, Path.length, List.length_dropLast]
    omega
  dsimp only
  rw [pruneEmptyParents, parent]
  refine Ends.bind ((climb t _ _ 0 d pruned.shaped ?_ fun k within => ?_).mono
    (fun n d' climbed => Ends.pure ⟨_, rfl, written, deleted, bytes, ?_⟩) fun _ never => never)
  · show ch.path.segments.dropLast.length ≤ ch.path.segments.length
    rw [List.length_dropLast]
    omega
  · rw [List.prefix_iff_eq_take.mp parentAbove, List.take_take, Nat.min_eq_left within]
    exact noFileAt _ (dirsAbove k (by omega))
  · rw [List.map_append, List.map_singleton]
    exact pruned.climb notRoot dirs climbed

/-- On a disk where every directory held a file, pruning above every deleted file leaves every
directory holding a file: a directory that holds none has, by the pruning, a directory inside it
that holds none, and so on without end, which a finite disk cannot have. -/
theorem Pruned.filled (layered : t.Layered) (pruned : Pruned t d₁ done d)
    (filled : t.disk.Filled t.base)
    (dirs₁ : ∀ l, d₁.get? l = some .dir → t.disk.get? l = some .dir)
    (files₀ : ∀ l b, t.disk.get? l = some (.file b) →
      d₁.get? l = some (.file b) ∨ ∃ f ∈ done, l = t.physical f) :
    d.Filled t.base := by
  have step : ∀ l, t.base <+: l → l ≠ t.base → d.get? l = some .dir → ¬d.HoldsFile l →
      ∃ n, d.get? (l ++ [n]) = some .dir ∧ ¬d.HoldsFile (l ++ [n]) := by
    intro l inside notBase dir empty
    have dir₁ : d₁.get? l = some .dir := by
      rcases pruned.removed l with same | ⟨_, none', _⟩
      · exact same ▸ dir
      · rw [none'] at dir
        cases dir
    have dir₀ := dirs₁ l dir₁
    have nonempty : l ≠ [] := by
      rintro rfl
      exact notBase (List.prefix_nil.mp inside).symm
    obtain ⟨a, rfl, -⟩ := layered.path_of_entry
      ((Disk.get?_eq_some_iff layered.workspace.toShaped nonempty).mp dir₀) inside
    have notRoot : a ≠ Path.root := by
      rintro rfl
      exact notBase (by simp [physical_segments, Path.root])
    obtain ⟨l', b, under, file⟩ := filled _ inside notBase dir₀
    rcases files₀ l' b file with kept | ⟨f, member, rfl⟩
    · exact absurd ⟨_, b, under, (pruned.files _ b).mpr kept⟩ empty
    · have longer : (t.physical a).length < (t.physical f).length :=
        length_lt_of_prefix_ne under fun same => by
          rw [same, file] at dir₀
          cases dir₀
      obtain ⟨n, child⟩ := pruned.kept a ⟨f, member, physical_isBelow_iff.mp ⟨under, longer⟩⟩
        notRoot dir empty
      refine ⟨n, child, fun holds => ?_⟩
      obtain ⟨l'', b', under', file'⟩ := holds
      exact empty ⟨l'', b', (List.prefix_append _ _).trans under', file'⟩
  exact filled_of_descent pruned.shaped step

end StagedTree

end Monorepo
