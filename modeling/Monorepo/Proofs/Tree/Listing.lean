import Mathlib.Algebra.Order.BigOperators.Group.List
import Monorepo.Proofs.Tree.View

/-! Listing a consistent tree. The children of a directory are the names, in increasing order,
of the entries directly inside it that lead to a live file; a walk lists every live file below a
directory exactly once, in path order. -/

namespace Monorepo.StagedTree

open Monorepo.Tree Utf8

theorem pairwise_lt_eraseDups {names : List String} (sorted : names.Pairwise (· ≤ ·)) :
    names.eraseDups.Pairwise (· < ·) := by
  match names, sorted with
  | [], _ => simp
  | n :: rest, sorted =>
    rw [List.eraseDups_cons]
    have later : (rest.filter fun m => !m == n).Pairwise (· ≤ ·) :=
      (List.pairwise_cons.mp sorted).2.sublist List.filter_sublist
    refine List.pairwise_cons.mpr ⟨fun m member => ?_, pairwise_lt_eraseDups later⟩
    obtain ⟨inRest, other⟩ := List.mem_filter.mp (List.mem_eraseDups.mp member)
    have different : n ≠ m := fun same => by simp [same] at other
    exact lt_of_le_of_ne ((List.pairwise_cons.mp sorted).1 m inRest) different
termination_by names.length
decreasing_by exact Nat.lt_succ_of_le (List.length_filter_le _ _)

theorem listing_of_gathered {d : Path} {gathered : List String} {leads : String → Prop}
    (complete : ∀ n, n ∈ gathered ↔ leads n) (plain : ∀ n, leads n → Path.PlainSegment n) :
    ∃ names : List String,
      (gathered.mergeSort fun a b => a ≤ b).eraseDups.mapM d.join = .ok (names.map d.child) ∧
        names.Pairwise (· < ·) ∧ ∀ n, n ∈ names ↔ leads n := by
  set names := (gathered.mergeSort fun a b => a ≤ b).eraseDups
  have listed : ∀ n, n ∈ names ↔ leads n := fun n => by
    simp [names, List.mem_mergeSort, complete]
  have trans : ∀ a b c : String,
      decide (a ≤ b) = true → decide (b ≤ c) = true → decide (a ≤ c) = true := by
    intro a b c ab bc
    simp only [decide_eq_true_eq] at ab bc ⊢
    exact le_trans ab bc
  have total : ∀ a b : String, (decide (a ≤ b) || decide (b ≤ a)) = true := by
    intro a b
    simpa using le_total a b
  have sorted := List.pairwise_mergeSort trans total gathered
  refine ⟨names, ?_, pairwise_lt_eraseDups (sorted.imp fun ordered => by simpa using ordered),
    listed⟩
  exact mapM_of_ok d.child fun n member => Path.join_plain (plain n ((listed n).mp member))

variable {t : StagedTree}

theorem Consistent.contains_iff (consistent : t.Consistent) {p : Path} :
    t.contains p = true ↔ p = Path.root ∨ ∃ q, (t.view q).isSome ∧ p.segments <+: q.segments := by
  rw [contains, Bool.or_eq_true, isFile_eq_view, consistent.toLayered.isDir_iff]
  constructor
  · rintro (live | root | ⟨q, under, liveQ⟩)
    · exact .inr ⟨p, live, List.prefix_refl _⟩
    · exact .inl root
    · exact .inr ⟨q, liveQ, under.1⟩
  · rintro (root | ⟨q, liveQ, above⟩)
    · exact .inr (.inl root)
    · by_cases same : p = q
      · subst same
        exact .inl liveQ
      · exact .inr (.inr ⟨q, Path.isBelow_of_prefix above same, liveQ⟩)

theorem Consistent.onDisk_of_prefix (consistent : t.Consistent) {a q : Path} {c : Bytes}
    (found : t.diskFile q = some c) (uncovered : ¬∃ b ∈ q.ancestors, t.stagedFile b = true)
    (above : a.segments <+: q.segments) :
    (∃ e, t.disk.get? (t.physical a) = some e) ∧ t.shadowed a = false := by
  by_cases same : a = q
  · subst same
    refine ⟨⟨.file c, diskFile_eq_some_iff.mp found⟩, ?_⟩
    exact Bool.eq_false_iff.mpr fun shadowed => uncovered (shadowed_iff_ancestor.mp shadowed)
  · have under := Path.isBelow_of_prefix above same
    refine ⟨⟨.dir, consistent.toLayered.dir_of_ancestor (diskFile_eq_some_iff.mp found)
      (Path.mem_ancestors.mpr under)⟩, ?_⟩
    refine Bool.eq_false_iff.mpr fun shadowed => uncovered ?_
    obtain ⟨b, higher, staged⟩ := shadowed_iff_ancestor.mp shadowed
    exact ⟨b, Path.mem_ancestors.mpr (under.trans (Path.mem_ancestors.mp higher)), staged⟩

theorem Consistent.plain_of_child_entry (consistent : t.Consistent) {d : Path} {n : Name}
    {e : Entry} (entry : (n, e) ∈ t.disk.childEntries (t.physical d)) : n.Plain := by
  refine consistent.workspace.plain _ (Disk.mem_childEntries.mp entry) ?_ n ?_
  · simp [physical_segments]
  · simp [physical_segments]

theorem Consistent.mem_overlayNames (consistent : t.Consistent) (d : Path) (n : String) :
    n ∈ (t.stagedFilesBelow d).filterMap (fun p => p.segments[d.length]?) ↔
      ∃ q, t.stagedFile q = true ∧ (d.child n).segments <+: q.segments := by
  simp only [List.mem_filterMap, mem_stagedFilesBelow consistent.keysUnique,
    Path.child_prefix_iff]
  constructor
  · rintro ⟨q, ⟨staged, under, -⟩, named⟩
    exact ⟨q, staged, under, named⟩
  · rintro ⟨q, staged, under, named⟩
    obtain ⟨within, -⟩ := List.getElem?_eq_some_iff.mp named
    exact ⟨q, ⟨staged, under, within⟩, named⟩

theorem Consistent.children_spec (consistent : t.Consistent) (d : Path) :
    ∃ names : List String, t.children d = .ok (names.map d.child) ∧ names.Pairwise (· < ·) ∧
      ∀ n, n ∈ names ↔ ∃ q, (t.view q).isSome ∧ (d.child n).segments <+: q.segments := by
  have shaped := consistent.workspace.toShaped
  have plain : ∀ n, (∃ q, (t.view q).isSome ∧ (d.child n).segments <+: q.segments) →
      Path.PlainSegment n := by
    rintro n ⟨q, live, above⟩
    exact (consistent.plain_of_live live).1 n (above.subset (by simp))
  have diskLead : ∀ n q, (t.view q).isSome → (d.child n).segments <+: q.segments →
      t.stagedFile q = false → (∃ e, t.disk.get? (t.physical (d.child n)) = some e) ∧
        t.disk.isDir (t.physical d) = true ∧ t.shadowed d = false := by
    intro n q live above notStaged
    obtain ⟨-, uncovered, onDisk⟩ := (view_isSome_iff.mp live).resolve_left (by simp [notStaged])
    obtain ⟨c, found⟩ := Option.isSome_iff_exists.mp onDisk
    have dirAbove : d.segments <+: q.segments := (List.prefix_append _ _).trans above
    have under : q.IsBelow d := by
      refine ⟨dirAbove, ?_⟩
      have longer := above.length_le
      simp only [Path.child_segments, List.length_append, List.length_singleton] at longer
      simp only [Path.length]
      omega
    exact ⟨(consistent.onDisk_of_prefix found uncovered above).1,
      Disk.isDir_iff.mpr (consistent.toLayered.dir_of_ancestor (diskFile_eq_some_iff.mp found)
        (Path.mem_ancestors.mpr under)),
      (consistent.onDisk_of_prefix found uncovered dirAbove).2⟩
  have fromOverlay (n : String) (q : Path) (staged : t.stagedFile q = true)
      (above : (d.child n).segments <+: q.segments) :
      n ∈ (t.stagedFilesBelow d).filterMap (fun p => p.segments[d.length]?) :=
    (consistent.mem_overlayNames d n).mpr ⟨q, staged, above⟩
  have liveOverlay (n : String)
      (listed : n ∈ (t.stagedFilesBelow d).filterMap (fun p => p.segments[d.length]?)) :
      ∃ q, (t.view q).isSome ∧ (d.child n).segments <+: q.segments := by
    obtain ⟨q, staged, above⟩ := (consistent.mem_overlayNames d n).mp listed
    obtain ⟨c, content⟩ := stagedFile_iff.mp staged
    exact ⟨q, by simp [view_of_content content], above⟩
  by_cases listed : (t.disk.isDir (t.physical d) && !t.shadowed d) = true
  · have dir : t.disk.get? (t.physical d) = some .dir := by
      simp only [Bool.and_eq_true, Bool.not_eq_eq_eq_not, Bool.not_true] at listed
      exact Disk.isDir_iff.mp listed.1
    simp only [children, listed, if_true, Disk.readDir_of_dir shaped dir]
    rw [filterMapM_of_ok (fun name =>
      if t.isFile (d.child name) || t.isDir (d.child name) then some name else none) ?joins]
    case joins =>
      intro name member
      obtain ⟨n, inNames, named⟩ := List.mem_filterMap.mp member
      obtain ⟨⟨n', e⟩, entry, rfl⟩ := List.mem_map.mp inNames
      have plainName := consistent.plain_of_child_entry entry
      cases n' with
      | text s =>
        simp only [Name.text?, Option.some.injEq] at named
        subst named
        rw [Path.join_plain plainName]
        rfl
      | raw b => simp [Name.text?] at named
    refine listing_of_gathered (fun n => ?_) plain
    rw [List.mem_append]
    constructor
    · rintro (onDisk | inOverlay)
      · obtain ⟨name, -, kept⟩ := List.mem_filterMap.mp onDisk
        split at kept
        · rename_i holds
          simp only [Option.some.injEq] at kept
          subst kept
          rcases consistent.contains_iff.mp holds with root | lead
          · have empty := congrArg Path.segments root
            simp [Path.root] at empty
          · exact lead
        · cases kept
      · exact liveOverlay n inOverlay
    · rintro ⟨q, live, above⟩
      by_cases staged : t.stagedFile q = true
      · exact .inr (fromOverlay n q staged above)
      · obtain ⟨⟨e, found⟩, -, -⟩ := diskLead n q live above (by simpa using staged)
        have nonempty : t.physical (d.child n) ≠ [] := by simp [physical_segments]
        have entry := (Disk.get?_eq_some_iff shaped nonempty).mp found
        have child : (Name.text n, e) ∈ t.disk.childEntries (t.physical d) :=
          Disk.mem_childEntries.mpr (by simpa [physical_segments] using entry)
        have holds : t.contains (d.child n) = true :=
          consistent.contains_iff.mpr (.inr ⟨q, live, above⟩)
        refine .inl (List.mem_filterMap.mpr ⟨n, ?_, ?_⟩)
        · exact List.mem_filterMap.mpr ⟨.text n, List.mem_map.mpr ⟨_, child, rfl⟩, rfl⟩
        · simp only [contains] at holds
          simp [holds]
  · simp only [children, listed]
    refine listing_of_gathered (fun n => ?_) plain
    simp only [List.nil_append]
    constructor
    · exact liveOverlay n
    · rintro ⟨q, live, above⟩
      by_cases staged : t.stagedFile q = true
      · exact fromOverlay n q staged above
      · obtain ⟨-, dir, open_⟩ := diskLead n q live above (by simpa using staged)
        simp [dir, open_] at listed

theorem Consistent.length_lt_depthBound (consistent : t.Consistent) {q : Path}
    (live : (t.view q).isSome) : q.length < t.depthBound := by
  have bounded : q.length ≤ (t.overlay.map (·.1.length) ++ t.disk.entries.map (·.1.length)).sum := by
    rcases view_isSome_iff.mp live with staged | ⟨-, -, onDisk⟩
    · obtain ⟨c, content⟩ := stagedFile_iff.mp staged
      have entry := (staged?_eq_some_iff consistent.keysUnique).mp content
      exact List.le_sum_of_mem (List.mem_append_left _ (List.mem_map.mpr ⟨_, entry, rfl⟩))
    · obtain ⟨c, found⟩ := Option.isSome_iff_exists.mp onDisk
      have notRoot := (consistent.plain_of_live live).2
      have nonempty : t.physical q ≠ [] := by
        intro empty
        simp only [physical_segments, List.append_eq_nil_iff, List.map_eq_nil_iff] at empty
        exact notRoot (Path.eq_of_segments empty.2)
      have entry := (Disk.get?_eq_some_iff consistent.workspace.toShaped nonempty).mp
        (diskFile_eq_some_iff.mp found)
      calc q.length ≤ (t.physical q).length := by rw [physical_length]; omega
        _ ≤ _ := List.le_sum_of_mem (List.mem_append_right _ (List.mem_map.mpr ⟨_, entry, rfl⟩))
  rw [depthBound, ← List.sum_eq_foldr]
  omega

/-- A walk from `d` whose fuel reaches every live file below it lists each of them once, in path
order. The induction is on the fuel: one level lists the children of `d` in name order, keeps
those that are files and walks into the others with one level less. -/
theorem Consistent.walk_go (consistent : t.Consistent) (fuel : Nat) (d : Path)
    (deep : ∀ q, (t.view q).isSome → q.IsBelow d → q.length ≤ d.length + fuel) :
    ∃ files, walkFilesWhere.go t (fun _ => true) fuel d = .ok files ∧
      files.Pairwise (fun a b => a.lt b = true) ∧
      ∀ q, q ∈ files ↔ (t.view q).isSome ∧ q.IsBelow d := by
  induction fuel generalizing d with
  | zero =>
    refine ⟨[], rfl, .nil, fun q => ?_⟩
    simp only [List.not_mem_nil, false_iff, not_and]
    intro live under
    have bounded := deep q live under
    have longer := under.2
    omega
  | succ fuel ih =>
    obtain ⟨names, kids, sorted, leads⟩ := consistent.children_spec d
    rw [walkFilesWhere.go, kids, except_ok_bind]
    refine flatMapM_of_ok (fun c files => files.Pairwise (fun a b => a.lt b = true) ∧
      ∀ q, q ∈ files ↔ (t.view q).isSome ∧ c.segments <+: q.segments) ?each ?combine
    case each =>
      intro c member
      obtain ⟨n, -, rfl⟩ := List.mem_map.mp member
      by_cases live : (t.view (d.child n)).isSome
      · refine ⟨[d.child n], by simp [isFile_eq_view, live], by simp, fun q => ?_⟩
        constructor
        · intro listed
          rw [List.mem_singleton.mp listed]
          exact ⟨live, List.prefix_refl _⟩
        · rintro ⟨liveQ, above⟩
          by_cases same : d.child n = q
          · simp [same]
          · have gone := consistent.separate _ q live (Path.isBelow_of_prefix above same)
            simp [gone] at liveQ
      · have deeper : ∀ q, (t.view q).isSome → q.IsBelow (d.child n) →
            q.length ≤ (d.child n).length + fuel := by
          intro q liveQ under
          have bounded := deep q liveQ (under.trans ⟨List.prefix_append _ _, by simp⟩)
          simp only [Path.child_length]
          omega
        obtain ⟨files, walked, ordered, listed⟩ := ih (d.child n) deeper
        refine ⟨files, by simp [isFile_eq_view, live, walked], ordered, fun q => ?_⟩
        rw [listed q]
        constructor
        · rintro ⟨liveQ, under⟩
          exact ⟨liveQ, under.1⟩
        · rintro ⟨liveQ, above⟩
          by_cases same : d.child n = q
          · subst same
            exact absurd liveQ live
          · exact ⟨liveQ, Path.isBelow_of_prefix above same⟩
    case combine =>
      intro groups inputs related
      refine ⟨?_, fun q => ?_⟩
      · rw [List.pairwise_flatMap]
        refine ⟨fun g member => (related g member).1, ?_⟩
        have childOrder : (groups.map (·.1)).Pairwise
            fun a b => ∃ m n, m < n ∧ a = d.child m ∧ b = d.child n := by
          rw [inputs, List.pairwise_map]
          exact sorted.imp fun {m n} earlier => ⟨m, n, earlier, rfl, rfl⟩
        refine (List.pairwise_map.mp childOrder).imp_of_mem fun {g h} inG inH order => ?_
        obtain ⟨m, n, earlier, first, second⟩ := order
        intro a inA b inB
        have aAbove := (((related g inG).2 a).mp inA).2
        have bAbove := (((related h inH).2 b).mp inB).2
        rw [first] at aAbove
        rw [second] at bAbove
        exact Path.lt_of_child_lt earlier aAbove bAbove
      · simp only [List.mem_flatMap]
        constructor
        · rintro ⟨g, inG, inFiles⟩
          obtain ⟨liveQ, above⟩ := ((related g inG).2 q).mp inFiles
          have child : g.1 ∈ names.map d.child := by
            rw [← inputs]
            exact List.mem_map_of_mem inG
          obtain ⟨n, -, named⟩ := List.mem_map.mp child
          rw [← named] at above
          refine ⟨liveQ, (List.prefix_append _ _).trans above, ?_⟩
          have longer := above.length_le
          simp only [Path.child_segments, List.length_append, List.length_singleton] at longer
          simp only [Path.length]
          omega
        · rintro ⟨liveQ, under⟩
          have within : d.length < q.segments.length := under.2
          have above : (d.child q.segments[d.length]).segments <+: q.segments :=
            Path.child_prefix_iff.mpr ⟨under.1, List.getElem?_eq_getElem within⟩
          have listedName := (leads _).mpr ⟨q, liveQ, above⟩
          have child : d.child q.segments[d.length] ∈ groups.map (·.1) := by
            rw [inputs]
            exact List.mem_map_of_mem listedName
          obtain ⟨g, inG, first⟩ := List.mem_map.mp child
          exact ⟨g, inG, ((related g inG).2 q).mpr ⟨liveQ, first ▸ above⟩⟩

theorem walkFiles_of_live {d : Path} (live : (t.view d).isSome) : t.walkFiles d = .ok [d] := by
  simp [walkFiles, walkFilesWhere, isFile_eq_view, live]

theorem Consistent.walkFiles_of_dead (consistent : t.Consistent) {d : Path} (gone : t.view d = none) :
    ∃ files, t.walkFiles d = .ok files ∧ files.Pairwise (fun a b => a.lt b = true) ∧
      ∀ q, q ∈ files ↔ (t.view q).isSome ∧ q.IsBelow d := by
  have notFile : t.isFile d = false := by simp [isFile_eq_view, gone]
  rw [walkFiles, walkFilesWhere, notFile]
  refine consistent.walk_go t.depthBound d fun q live _ => ?_
  have shorter := consistent.length_lt_depthBound live
  omega

theorem Consistent.walkFiles_spec (consistent : t.Consistent) (d : Path) :
    ∃ files, t.walkFiles d = .ok files ∧ files.Nodup ∧
      ∀ f, f ∈ files ↔ (t.view f).isSome ∧ f.startsWith d = true := by
  by_cases live : (t.view d).isSome
  · refine ⟨[d], walkFiles_of_live live, List.nodup_singleton d, fun f => ⟨?_, ?_⟩⟩
    · intro member
      rw [List.mem_singleton.mp member]
      exact ⟨live, Path.startsWith_iff.mpr (List.prefix_refl _)⟩
    · rintro ⟨liveF, under⟩
      by_cases same : d = f
      · simp [same]
      · have gone := consistent.separate d f live (Path.isBelow_of_prefix (Path.startsWith_iff.mp under) same)
        simp [gone] at liveF
  · obtain ⟨files, walked, sorted, listed⟩ := consistent.walkFiles_of_dead (by simpa using live)
    refine ⟨files, walked, Path.nodup_of_pairwise_lt sorted, fun f => ?_⟩
    rw [listed f]
    constructor
    · rintro ⟨liveF, under⟩
      exact ⟨liveF, Path.startsWith_iff.mpr under.1⟩
    · rintro ⟨liveF, under⟩
      refine ⟨liveF, Path.isBelow_of_prefix (Path.startsWith_iff.mp under) ?_⟩
      rintro rfl
      exact live liveF

theorem live_of_walkFilesWhere {d f : Path} {descend : Path → Bool} {files : List Path}
    (walked : t.walkFilesWhere d descend = .ok files) (member : f ∈ files) :
    (t.view f).isSome := by
  rw [← isFile_eq_view]
  unfold walkFilesWhere at walked
  split at walked
  · cases walked
    rwa [List.mem_singleton.mp member]
  rename_i notFile
  clear notFile
  generalize t.depthBound = fuel at walked
  induction fuel generalizing d files with
  | zero =>
    cases walked
    simp at member
  | succ fuel ih =>
    rw [walkFilesWhere.go, except_bind_eq_ok] at walked
    obtain ⟨kids, -, listed⟩ := walked
    obtain ⟨child, -, found, walkedChild, inFound⟩ := mem_of_flatMapM_eq_ok listed member
    split at walkedChild
    · cases walkedChild
      rwa [List.mem_singleton.mp inFound]
    split at walkedChild
    · exact ih inFound walkedChild
    · cases walkedChild
      simp at inFound

/-- A walk that passes over some directories lists part of what the full walk lists, in its
order. The induction is on the fuel; at each level both walks read the same children. -/
theorem walkFilesWhere_go_sublist {descend : Path → Bool} :
    ∀ {fuel : Nat} {d : Path} {files all : List Path},
      walkFilesWhere.go t descend fuel d = .ok files →
      walkFilesWhere.go t (fun _ => true) fuel d = .ok all → files.Sublist all
  | 0, _, _, _, walked, walkedAll => by
    cases walked
    cases walkedAll
    exact List.Sublist.refl _
  | fuel + 1, d, files, all, walked, walkedAll => by
    rw [walkFilesWhere.go, except_bind_eq_ok] at walked walkedAll
    obtain ⟨kids, listed, walked⟩ := walked
    obtain ⟨kids', listed', walkedAll⟩ := walkedAll
    rw [listed, Except.ok.injEq] at listed'
    subst listed'
    refine flatMapM_sublist walked walkedAll fun child _ a b here there => ?_
    by_cases file : t.isFile child = true
    · simp only [file, if_true, except_pure, Except.ok.injEq] at here there
      rw [← here, ← there]
    · simp only [file, Bool.false_eq_true, if_false, if_true] at here there
      split at here
      · exact walkFilesWhere_go_sublist here there
      · simp only [except_pure, Except.ok.injEq] at here
        rw [← here]
        exact List.nil_sublist b

theorem Consistent.walkFilesWhere_nodup (consistent : t.Consistent) {d : Path}
    {descend : Path → Bool} {files : List Path} (walked : t.walkFilesWhere d descend = .ok files) :
    files.Nodup := by
  obtain ⟨all, walkedAll, nodup, -⟩ := consistent.walkFiles_spec d
  unfold walkFiles walkFilesWhere at walkedAll
  unfold walkFilesWhere at walked
  by_cases file : t.isFile d = true
  · rw [if_pos file, Except.ok.injEq] at walked
    rw [← walked]
    exact List.nodup_singleton d
  · rw [if_neg file] at walked walkedAll
    exact nodup.sublist (walkFilesWhere_go_sublist walked walkedAll)

end Monorepo.StagedTree
