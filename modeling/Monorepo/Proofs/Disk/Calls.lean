import Monorepo.Proofs.Disk

/-! The system calls that change a disk, on a disk that a file system can show. Removing a file
or an empty directory takes that one location away; creating a directory and writing a file put
one entry at a path whose parents stand; creating directories with their parents fills in every
location at and above a path. Each call keeps the disk one that a file system can show. -/

namespace Monorepo.Disk

open Utf8

variable {d : Disk}

/-- Nothing stands strictly below a location. -/
def Leaf (d : Disk) (p : List Name) : Prop :=
  ∀ x ∈ d.entries, ¬(p <+: x.1 ∧ p.length < x.1.length)

theorem length_lt_of_prefix_ne {α : Type} {q p : List α} (above : q <+: p) (other : q ≠ p) :
    q.length < p.length :=
  Nat.lt_of_le_of_ne above.length_le fun lengths => other (above.eq_of_length lengths)

theorem prefix_iff_eq_or_prefix_dropLast {α : Type} {q p : List α} :
    q <+: p ↔ q = p ∨ q <+: p.dropLast := by
  constructor
  · intro under
    by_cases same : q = p
    · exact .inl same
    right
    have shorter := length_lt_of_prefix_ne under same
    rw [List.prefix_iff_eq_take] at under ⊢
    rw [List.dropLast_eq_take, List.take_take, Nat.min_eq_left (by omega)]
    exact under
  · rintro (rfl | under)
    · exact List.prefix_refl _
    · exact under.trans (List.dropLast_prefix p)

theorem get?_drop (d : Disk) (p q : List Name) :
    (d.drop p).get? q = if q ≠ [] ∧ p <+: q then none else d.get? q := by
  by_cases empty : q = []
  · simp [get?, empty]
  simp only [get?, List.isEmpty_iff, empty, if_false, ne_eq, not_false_eq_true, true_and, drop]
  split
  · rename_i under
    refine congrArg (Option.map _) (List.find?_eq_none.mpr fun x member found => ?_)
    have kept := (List.mem_filter.mp member).2
    have same : x.1 = q := by simpa using found
    rw [same, List.isPrefixOf_iff_prefix.mpr under] at kept
    simp at kept
  · rename_i outside
    have notPrefix : p.isPrefixOf q = false := by
      rw [← Bool.not_eq_true, List.isPrefixOf_iff_prefix]
      exact outside
    rw [find?_filter_of_imp fun x found => by
      have same : x.1 = q := by simpa using found
      simp [same, notPrefix]]

theorem get?_put (d : Disk) {p : List Name} (e : Entry) (nonempty : p ≠ []) (q : List Name) :
    (d.put p e).get? q = if q = p then some e else d.get? q := by
  by_cases empty : q = []
  · simp [get?, empty, Ne.symm nonempty]
  simp only [get?, List.isEmpty_iff, empty, if_false, put]
  split
  · rename_i present
    rw [List.find?_map, Option.map_map]
    have sameKey : ((fun x : List Name × Entry => x.1 == q) ∘ fun x : List Name × Entry =>
        if x.1 == p then (x.1, e) else (x.1, x.2)) = fun x => x.1 == q := by
      funext x
      by_cases same : x.1 = p <;> simp [same]
    rw [sameKey]
    cases found : d.entries.find? (·.1 == q) with
    | none =>
      have absent : q ≠ p := by
        rintro rfl
        obtain ⟨x, member, key⟩ := List.any_eq_true.mp present
        exact (List.find?_eq_none.mp found) x member key
      simp [absent]
    | some y =>
      have key : y.1 = q := by simpa using List.find?_some found
      by_cases same : q = p <;> simp [key, same]
  · rename_i absent
    rw [List.find?_append]
    split
    · rename_i atP
      subst atP
      have none : d.entries.find? (·.1 == q) = none :=
        List.find?_eq_none.mpr fun x member same => absent (List.any_eq_true.mpr ⟨x, member, same⟩)
      simp [none]
    · rename_i other
      have none : [(p, e)].find? (·.1 == q) = none := by simp [Ne.symm other]
      rw [none, Option.or_none]

theorem keys_put (d : Disk) (p : List Name) (e : Entry) {x : List Name × Entry}
    (member : x ∈ (d.put p e).entries) : x.1 = p ∨ ∃ y ∈ d.entries, y.1 = x.1 := by
  unfold put at member
  split at member
  · obtain ⟨⟨q, old⟩, inside, rfl⟩ := List.mem_map.mp member
    exact .inr ⟨(q, old), inside, by by_cases same : q = p <;> simp [same]⟩
  · rcases List.mem_append.mp member with inside | added
    · exact .inr ⟨x, inside, rfl⟩
    · exact .inl (by simp at added; simp [added])

theorem Shaped.drop (shaped : d.Shaped) (p : List Name) : (d.drop p).Shaped where
  unique := (List.filter_sublist.map _).nodup shaped.unique
  parents x member k shorter := by
    have ⟨inside, kept⟩ := List.mem_filter.mp member
    have outside : ¬p <+: x.1 := by
      intro under
      simp [List.isPrefixOf_iff_prefix.mpr under] at kept
    rw [get?_drop, if_neg fun ⟨_, under⟩ => outside (under.trans (List.take_prefix _ _))]
    exact shaped.parents x inside k shorter

theorem Shaped.put (shaped : d.Shaped) {p : List Name} {e : Entry} (nonempty : p ≠ [])
    (parents : ∀ k < p.length, d.get? (p.take k) = some .dir) (fits : e = .dir ∨ d.Leaf p) :
    (d.put p e).Shaped where
  unique := by
    unfold Disk.put
    split
    · rw [List.map_map]
      have sameKeys : ((fun x : List Name × Entry => x.1) ∘ fun x : List Name × Entry =>
          if x.1 == p then (x.1, e) else (x.1, x.2)) = fun x => x.1 := by
        funext x
        by_cases same : x.1 = p <;> simp [same]
      rw [sameKeys]
      exact shaped.unique
    · rename_i absent
      rw [List.map_append, List.nodup_append]
      refine ⟨shaped.unique, by simp, fun a member b added => ?_⟩
      obtain ⟨y, inside, rfl⟩ := List.mem_map.mp member
      have same : b = p := by simpa using added
      rintro rfl
      exact absent (List.any_eq_true.mpr ⟨y, inside, by simp [same]⟩)
  parents x member k shorter := by
    rw [get?_put _ _ nonempty]
    rcases keys_put d p e member with atP | ⟨y, inside, same⟩
    · have notP : x.1.take k ≠ p := fun taken => by
        have lengths := congrArg List.length taken
        rw [List.length_take_of_le shorter.le, ← atP] at lengths
        omega
      rw [if_neg notP, atP]
      exact parents k (atP ▸ shorter)
    · rw [← same] at shorter ⊢
      split
      · rename_i taken
        rcases fits with dir | leaf
        · exact congrArg some dir
        · have longer : p.length < y.1.length := by
            rw [← taken, List.length_take_of_le shorter.le]
            exact shorter
          exact absurd ⟨taken ▸ List.take_prefix k y.1, longer⟩ (leaf y inside)
      · exact shaped.parents y inside k shorter

theorem leaf_of_file (shaped : d.Shaped) {p : List Name} {c : Bytes}
    (found : d.get? p = some (.file c)) : d.Leaf p := by
  rintro x inside ⟨under, longer⟩
  have dir := shaped.parents x inside p.length longer
  rw [← List.prefix_iff_eq_take.mp under, found] at dir
  cases dir

theorem leaf_of_none (shaped : d.Shaped) {p : List Name} (missing : d.get? p = none) :
    d.Leaf p := by
  rintro x inside ⟨under, longer⟩
  have dir := shaped.parents x inside p.length longer
  rw [← List.prefix_iff_eq_take.mp under, missing] at dir
  cases dir

theorem childEntries_ne_nil_of_below (shaped : d.Shaped) {p l : List Name} {e : Entry}
    (found : d.get? l = some e) (under : p <+: l) (longer : p.length < l.length) :
    d.childEntries p ≠ [] := by
  obtain ⟨rest, rfl⟩ := under
  obtain ⟨n, more, rfl⟩ : ∃ n more, rest = n :: more := by
    cases rest with
    | nil => simp at longer
    | cons n more => exact ⟨n, more, rfl⟩
  have child : ∃ e', d.get? (p ++ [n]) = some e' := by
    cases more with
    | nil => exact ⟨e, found⟩
    | cons m rest =>
      have dir : d.get? ((p ++ n :: m :: rest).take (p.length + 1)) = some .dir :=
        get?_take shaped found (by simp)
      exact ⟨.dir, by simpa [List.take_length_add_append] using dir⟩
  obtain ⟨e', entry⟩ := child
  have listed := mem_childEntries.mpr ((get?_eq_some_iff shaped (by simp)).mp entry)
  intro empty
  simp [empty] at listed

theorem leaf_of_childEntries (shaped : d.Shaped) {p : List Name} (empty : d.childEntries p = []) :
    d.Leaf p := by
  rintro ⟨q, e⟩ inside ⟨under, longer⟩
  have nonempty : q ≠ [] := List.ne_nil_of_length_pos (by simp at longer; omega)
  exact childEntries_ne_nil_of_below shaped ((get?_eq_some_iff shaped nonempty).mpr inside) under
    longer empty

theorem get?_drop_of_leaf (shaped : d.Shaped) {p : List Name} (nonempty : p ≠ [])
    (leaf : d.Leaf p) (q : List Name) : (d.drop p).get? q = if q = p then none else d.get? q := by
  rw [get?_drop]
  by_cases same : q = p
  · simp [same, nonempty]
  rw [if_neg same]
  split
  · rename_i notRootUnder
    obtain ⟨notRoot, under⟩ := notRootUnder
    have longer := length_lt_of_prefix_ne under (Ne.symm same)
    cases found : d.get? q with
    | none => rfl
    | some e =>
      exact absurd ⟨under, longer⟩ (leaf (q, e) ((get?_eq_some_iff shaped notRoot).mp found))
  · rfl

theorem isFile_of_isFile_drop {p q : List Name} (file : (d.drop p).isFile q = true) :
    d.isFile q = true := by
  by_cases cut : q ≠ [] ∧ p <+: q
  · simp only [isFile, get?_drop, if_pos cut] at file
    cases file
  · simpa only [isFile, get?_drop, if_neg cut] using file

theorem removeFile_of_file (shaped : d.Shaped) {p : List Name} {c : Bytes} (nonempty : p ≠ [])
    (found : d.get? p = some (.file c)) : d.removeFile p = .ok (d.drop p) := by
  simp [removeFile, List.isEmpty_iff, nonempty, checkParents_of_get? shaped found, found]

theorem removeDir_of_empty (shaped : d.Shaped) {p : List Name} (nonempty : p ≠ [])
    (found : d.get? p = some .dir) (empty : d.childEntries p = []) :
    d.removeDir p = .ok (d.drop p) := by
  simp [removeDir, checkParents_of_get? shaped found, found, empty, List.isEmpty_iff, nonempty]

theorem readDir_of_none {p : List Name} (missing : d.get? p = none)
    (noFile : ∀ k < p.length, d.isFile (p.take k) = false) : d.readDir p = .error .notFound := by
  have clear : ¬∃ k < p.length, d.isFile (p.take k) = true := fun ⟨k, shorter, file⟩ => by
    simp [noFile k shorter] at file
  rcases checkParents_of_no_file_above clear with walk | failed
  · simp [readDir, walk, missing]
  · simp [readDir, failed]

theorem createDir_of_none {p : List Name}
    (parents : ∀ k < p.length, d.get? (p.take k) = some .dir) (missing : d.get? p = none) :
    d.createDir p = .ok (d.put p .dir) := by
  simp [createDir, checkParents_eq_ok_iff.mpr parents, missing]

theorem write_of_parents {p : List Name} (c : Bytes) (nonempty : p ≠ [])
    (parents : ∀ k < p.length, d.get? (p.take k) = some .dir) (notDir : d.get? p ≠ some .dir) :
    d.write p c = .ok (d.put p (.file c)) := by
  have walk := checkParents_eq_ok_iff.mpr parents
  cases found : d.get? p with
  | none => simp [write, List.isEmpty_iff, nonempty, walk, found]
  | some e =>
    cases e with
    | file old => simp [write, List.isEmpty_iff, nonempty, walk, found]
    | dir => exact absurd found notDir

theorem get?_of_prefix_dir (shaped : d.Shaped) {p q : List Name} (found : d.get? p = some .dir)
    (above : q <+: p) : d.get? q = some .dir := by
  by_cases same : q = p
  · rw [same]
    exact found
  rw [List.prefix_iff_eq_take.mp above]
  exact get?_take shaped found (length_lt_of_prefix_ne above same)

theorem dirs_of_made {d' : Disk} {l : List Name} (nonempty : l ≠ [])
    (gets : ∀ q, d'.get? q = if q <+: l.dropLast then some .dir else d.get? q) :
    (∀ k < l.length, d'.get? (l.take k) = some .dir) ∧ d'.get? l = d.get? l := by
  have positive : 0 < l.length := List.length_pos_of_ne_nil nonempty
  constructor
  · intro k shorter
    have above : l.take k <+: l.dropLast := by
      rw [List.dropLast_eq_take]
      exact (List.prefix_take_le_iff shorter).mpr (by omega)
    simp [gets, above]
  · have notParent : ¬l <+: l.dropLast := fun above => by
      have longer := above.length_le
      rw [List.length_dropLast] at longer
      omega
    simp [gets, notParent]

theorem createDirAll_of_no_file (shaped : d.Shaped) {p : List Name}
    (noFile : ∀ k ≤ p.length, d.isFile (p.take k) = false) :
    ∃ d', d.createDirAll p = .ok d' ∧ d'.Shaped ∧
      ∀ q, d'.get? q = if q <+: p then some .dir else d.get? q := by
  unfold createDirAll
  suffices climb : ∀ fuel (d : Disk) (p : List Name), d.Shaped → p.length ≤ fuel →
      (∀ k ≤ p.length, d.isFile (p.take k) = false) →
      ∃ d', createDirAll.go fuel d p = .ok d' ∧ d'.Shaped ∧
        ∀ q, d'.get? q = if q <+: p then some .dir else d.get? q from
    climb p.length d p shaped le_rfl noFile
  intro fuel
  induction fuel with
  | zero =>
    intro d p shaped short _
    have empty : p = [] := List.eq_nil_of_length_eq_zero (by omega)
    subst empty
    refine ⟨d, rfl, shaped, fun q => ?_⟩
    split
    · rename_i root
      simp [List.prefix_nil.mp root]
    · rfl
  | succ fuel ih =>
    intro d p shaped short noFile
    by_cases empty : p = []
    · subst empty
      refine ⟨d, by simp [createDirAll.go], shaped, fun q => ?_⟩
      split
      · rename_i root
        simp [List.prefix_nil.mp root]
      · rfl
    have walkOrMissing : d.checkParents p = .ok () ∨ d.checkParents p = .error .notFound :=
      checkParents_of_no_file_above fun ⟨k, shorter, file⟩ => by
        simp [noFile k shorter.le] at file
    have notFile : d.isFile p = false := by simpa using noFile p.length le_rfl
    cases found : d.get? p with
    | some e =>
      cases e with
      | file c => simp [isFile, found] at notFile
      | dir =>
        refine ⟨d, ?_, shaped, fun q => ?_⟩
        · simp [createDirAll.go, List.isEmpty_iff, empty, createDir,
            checkParents_of_get? shaped found, found, isDir]
        · split
          · rename_i above
            exact get?_of_prefix_dir shaped found above
          · rfl
    | none =>
      rcases walkOrMissing with walk | missingAbove
      · have parents := checkParents_eq_ok_iff.mp walk
        refine ⟨d.put p .dir, ?_, shaped.put empty parents (.inl rfl), fun q => ?_⟩
        · simp [createDirAll.go, List.isEmpty_iff, empty, createDir_of_none parents found]
        rw [get?_put _ _ empty]
        by_cases same : q = p
        · simp [same]
        rw [if_neg same]
        split
        · rename_i above
          rw [List.prefix_iff_eq_take.mp above]
          exact parents _ (length_lt_of_prefix_ne above same)
        · rfl
      · have shortParent : p.dropLast.length ≤ fuel := by
          rw [List.length_dropLast]
          omega
        have noFileParent : ∀ k ≤ p.dropLast.length, d.isFile (p.dropLast.take k) = false := by
          intro k le
          rw [List.dropLast_eq_take, List.take_take]
          exact noFile _ (by omega)
        obtain ⟨d₁, made, shaped₁, get₁⟩ := ih d p.dropLast shaped shortParent noFileParent
        obtain ⟨parents, same₁⟩ := dirs_of_made empty get₁
        have missing₁ : d₁.get? p = none := same₁.trans found
        have failed : d.createDir p = .error .notFound := by simp [createDir, missingAbove]
        refine ⟨d₁.put p .dir, ?_, shaped₁.put empty parents (.inl rfl), fun q => ?_⟩
        · simp [createDirAll.go, List.isEmpty_iff, empty, failed, made,
            createDir_of_none parents missing₁]
        rw [get?_put _ _ empty, get₁]
        by_cases same : q = p
        · simp [same]
        by_cases above : q <+: p.dropLast
        · simp [same, above, prefix_iff_eq_or_prefix_dropLast.mpr (.inr above)]
        · have notAbove : ¬q <+: p := fun under =>
            (prefix_iff_eq_or_prefix_dropLast.mp under).elim same above
          simp [same, above, notAbove]

end Monorepo.Disk
