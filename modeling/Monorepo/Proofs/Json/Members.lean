import Mathlib
import Monorepo.Json.Pointer

/-!
# Members of JSON objects

An object is the list of its members in insertion order. This module gives the lookups of that
list their meaning when the keys are told apart, which is how the readers build objects: a key
stores the value of its one member, an insertion appends or replaces in place, and removing a
key the way an indexed map does (the last member moves into the gap) leaves the other members
in some order. `Members.mergeInPlace_eq_append` says what merging an update into a document
does: each member of the document keeps its place and takes the update's value, or stays only if
it is an empty object or array, and the update's other members follow in the order the removals
leave them, which need not be theirs. From it, `Members.mergeInPlace_keepsLayout`: what the merge
holds under each key, its key order, and that merging the same update again changes nothing.
-/

namespace Monorepo.Json
namespace Members

variable {ms ns : Members} {k : String} {v : Value}

theorem mem_keys_of_mem (member : (k, v) ∈ ms) : k ∈ ms.keys :=
  List.mem_map.mpr ⟨(k, v), member, rfl⟩

theorem get?_eq_some_of_mem (nodup : ms.keys.Nodup) (member : (k, v) ∈ ms) :
    ms.get? k = some v := by
  induction ms with
  | nil => cases member
  | cons m rest ih =>
    obtain ⟨k', v'⟩ := m
    simp only [keys, List.map_cons, List.nodup_cons] at nodup
    rcases List.mem_cons.mp member with same | later
    · cases same
      simp [get?]
    · have other : k' ≠ k := fun same => nodup.1 (same ▸ mem_keys_of_mem later)
      have := ih nodup.2 later
      simp_all [get?]

theorem get?_eq_map_find? : ms.get? k = (ms.find? (·.1 == k)).map (·.2) := by
  unfold get?
  split
  · simp_all
  · rename_i missing
    simp [missing]

theorem mem_of_get?_eq_some (found : ms.get? k = some v) : (k, v) ∈ ms := by
  rw [get?_eq_map_find?, Option.map_eq_some_iff] at found
  obtain ⟨⟨k', v'⟩, found, rfl⟩ := found
  have same := List.find?_some found
  simp only [beq_iff_eq] at same
  subst same
  exact List.mem_of_find?_eq_some found

theorem get?_eq_none_iff : ms.get? k = none ↔ k ∉ ms.keys := by
  simp only [get?_eq_map_find?, Option.map_eq_none_iff, List.find?_eq_none, beq_iff_eq, keys,
    List.mem_map, not_exists, not_and]

theorem get?_append : (ms ++ ns).get? k = (ms.get? k).or (ns.get? k) := by
  simp only [get?_eq_map_find?, List.find?_append]
  cases ms.find? (·.1 == k) <;> simp

theorem contains_iff : ms.contains k = true ↔ k ∈ ms.keys := by
  simp [contains, keys]

theorem keys_insert :
    (insert ms k v).keys = if k ∈ ms.keys then ms.keys else ms.keys ++ [k] := by
  unfold insert
  by_cases present : k ∈ ms.keys
  · have : ms.contains k = true := contains_iff.mpr present
    rw [if_pos present]
    simp only [this, if_true, keys, List.map_map]
    refine List.map_congr_left fun (m : String × Value) _ => ?_
    by_cases same : m.1 = k <;> simp [same]
  · have : ms.contains k = false := Bool.eq_false_iff.mpr (mt contains_iff.mp present)
    rw [if_neg present]
    simp [this, keys]

theorem nodup_insert (nodup : ms.keys.Nodup) : (insert ms k v).keys.Nodup := by
  rw [keys_insert]
  split
  · exact nodup
  · rename_i absent
    refine List.nodup_append.mpr ⟨nodup, List.nodup_singleton k, ?_⟩
    intro a member b single same
    rw [List.mem_singleton] at single
    subst single same
    exact absent member

theorem mem_insert {m : String × Value} (member : m ∈ insert ms k v) : m ∈ ms ∨ m = (k, v) := by
  unfold insert at member
  split at member
  · obtain ⟨m', member', rfl⟩ := List.mem_map.mp member
    by_cases same : m'.1 = k <;> simp_all
  · simpa using member

theorem get?_eq_some_iff (nodup : ms.keys.Nodup) : ms.get? k = some v ↔ (k, v) ∈ ms :=
  ⟨mem_of_get?_eq_some, get?_eq_some_of_mem nodup⟩

theorem nodup_keys_of_perm (p : ms.Perm ns) (nodup : ms.keys.Nodup) : ns.keys.Nodup :=
  (p.map _).nodup_iff.mp nodup

theorem get?_of_perm (p : ms.Perm ns) (nodup : ms.keys.Nodup) : ms.get? k = ns.get? k := by
  cases found : ms.get? k with
  | some v =>
    exact ((get?_eq_some_iff (nodup_keys_of_perm p nodup)).mpr
      (p.subset (mem_of_get?_eq_some found))).symm
  | none =>
    have absent : k ∉ ns.keys := fun member => get?_eq_none_iff.mp found ((p.map _).mem_iff.mpr member)
    exact (get?_eq_none_iff.mpr absent).symm

theorem get?_filter_not_mem {ks : List String} :
    get? (ms.filter fun m => m.1 ∉ ks) k = if k ∈ ks then none else ms.get? k := by
  simp only [get?_eq_map_find?, List.find?_filter]
  split
  · rename_i excluded
    simp only [Option.map_eq_none_iff, List.find?_eq_none]
    intro m _ both
    simp only [decide_eq_true_eq, beq_iff_eq] at both
    exact both.1 (both.2 ▸ excluded)
  · rename_i kept
    congr 1
    refine List.find?_congr fun (m : String × Value) _ => ?_
    by_cases same : m.1 = k
    · simp [same, kept]
    · simp [same]

theorem split_at_key {i : Nat} (found : ms.findIdx? (·.1 == k) = some i) :
    ∃ before m after, ms = before ++ m :: after ∧ before.length = i ∧ m.1 = k ∧
      k ∉ keys before := by
  obtain ⟨bound, here, earlier⟩ := List.findIdx?_eq_some_iff_getElem.mp found
  refine ⟨ms.take i, ms[i], ms.drop (i + 1), ?_, List.length_take_of_le (Nat.le_of_lt bound),
    by simpa using here, ?_⟩
  · rw [List.getElem_cons_drop bound]
    exact (List.take_append_drop i ms).symm
  · intro member
    obtain ⟨m, inTake, rfl⟩ := List.mem_map.mp member
    obtain ⟨j, below, rfl⟩ := List.mem_iff_getElem.mp inTake
    simp only [List.length_take] at below
    have := earlier j (by omega)
    simp_all

theorem filter_of_absent (absent : k ∉ keys ms) : ms.filter (·.1 != k) = ms := by
  refine List.filter_eq_self.mpr fun m member => ?_
  have : m.1 ≠ k := fun same => absent (List.mem_map.mpr ⟨m, member, same⟩)
  simpa using this

theorem swapRemove_fst : (swapRemove ms k).1 = ms.get? k := by
  unfold swapRemove
  cases found : ms.findIdx? (·.1 == k) with
  | none =>
    rw [List.findIdx?_eq_none_iff] at found
    simp only [get?_eq_map_find?]
    rw [List.find?_eq_none.mpr fun m member => by simp [found m member]]
    rfl
  | some i =>
    obtain ⟨before, m, after, rfl, rfl, key, absent⟩ := split_at_key found
    have first : (before ++ m :: after).get? k = some m.2 := by
      rw [get?_append, get?_eq_none_iff.mpr absent]
      simp [get?, key]
    simp only [first, List.getElem?_append_right (Nat.le_refl _), Nat.sub_self,
      List.getElem?_cons_zero, Option.map_some]
    split <;> (try split) <;> rfl

theorem swapRemove_perm (nodup : ms.keys.Nodup) : (swapRemove ms k).2.Perm (ms.filter (·.1 != k)) := by
  unfold swapRemove
  cases found : ms.findIdx? (·.1 == k) with
  | none =>
    rw [List.findIdx?_eq_none_iff] at found
    refine (List.filter_eq_self.mpr fun m member => ?_).symm ▸ List.Perm.refl ms
    simpa using found m member
  | some i =>
    obtain ⟨before, m, after, rfl, rfl, key, absent⟩ := split_at_key found
    have later : k ∉ keys after := by
      simp only [keys, List.map_append, List.map_cons, List.nodup_append, List.nodup_cons] at nodup
      exact key ▸ nodup.2.1.1
    have filtered : (before ++ m :: after).filter (·.1 != k) = before ++ after := by
      simp [List.filter_append, filter_of_absent absent, filter_of_absent later, key]
    rw [filtered]
    simp only [List.length_append, List.length_cons]
    rcases List.eq_nil_or_concat after with rfl | ⟨rest, last, rfl⟩
    · simp
    · simp only [List.concat_eq_append] at *
      have size : ¬before.length + 1 = before.length + ((rest ++ [last]).length + 1) := by simp
      have lastOne : (before ++ m :: (rest ++ [last])).getLast? = some last := by
        rw [show before ++ m :: (rest ++ [last]) = (before ++ m :: rest) ++ [last] by simp]
        exact List.getLast?_concat
      have taken : (before ++ m :: (rest ++ [last])).take
          (before.length + ((rest ++ [last]).length + 1) - 1) = before ++ m :: rest := by
        rw [show before ++ m :: (rest ++ [last]) = (before ++ m :: rest) ++ [last] by simp]
        exact List.take_left' (by simp)
      rw [if_neg size, lastOne]
      simp only
      rw [taken, List.set_append_right _ _ (Nat.le_refl _), Nat.sub_self, List.set_cons_zero]
      exact List.Perm.append_left before (List.perm_append_singleton last rest).symm

theorem nodup_keys_filter (p : String × Value → Bool) (nodup : ms.keys.Nodup) :
    (keys (ms.filter p)).Nodup :=
  nodup.sublist ((List.filter_sublist).map _)

theorem get?_filter_ne {k' : String} (other : k' ≠ k) :
    get? (ms.filter (·.1 != k)) k' = ms.get? k' := by
  have same : ms.filter (·.1 != k) = ms.filter fun m => m.1 ∉ [k] :=
    List.filter_congr fun m _ => by by_cases same : m.1 = k <;> simp [same]
  rw [same, get?_filter_not_mem, if_neg (by simpa using other)]

theorem nodup_swapRemove (nodup : ms.keys.Nodup) : (swapRemove ms k).2.keys.Nodup :=
  nodup_keys_of_perm (swapRemove_perm nodup).symm (nodup_keys_filter _ nodup)

theorem get?_swapRemove (nodup : ms.keys.Nodup) (k' : String) :
    (swapRemove ms k).2.get? k' = if k' = k then none else ms.get? k' := by
  rw [← get?_of_perm (swapRemove_perm nodup).symm (nodup_keys_filter _ nodup)]
  split
  · rename_i same
    subst same
    exact get?_eq_none_iff.mpr (by simp [keys])
  · exact get?_filter_ne ‹_›

theorem get?_ite_swapRemove (nodup : ms.keys.Nodup) (c : Prop) [Decidable c] (k' : String) :
    (if c then (swapRemove ms k).2 else ms).get? k' = if c ∧ k' = k then none else ms.get? k' := by
  split <;> simp_all [get?_swapRemove nodup]

theorem nodup_ite_swapRemove (nodup : ms.keys.Nodup) (c : Prop) [Decidable c] :
    (if c then (swapRemove ms k).2 else ms).keys.Nodup := by
  split
  · exact nodup_swapRemove nodup
  · exact nodup

theorem insert_of_not_mem (absent : k ∉ ms.keys) : insert ms k v = ms ++ [(k, v)] := by
  have : ms.contains k = false := Bool.eq_false_iff.mpr (mt contains_iff.mp absent)
  simp [insert, this]

theorem fresh_after_append {acc : Members} {rest : List String} (later : k ∉ rest)
    (fresh : ∀ k' ∈ rest, k' ∉ acc.keys) : ∀ k' ∈ rest, k' ∉ (acc ++ [(k, v)]).keys := by
  intro k' member
  simp only [keys, List.map_append, List.map_cons, List.map_nil, List.mem_append,
    List.mem_singleton, not_or]
  exact ⟨fresh k' member, fun same => later (same ▸ member)⟩

theorem foldl_insert_fresh {f : Members → String × Value → Members}
    (inserts : ∀ acc k v, f acc (k, v) = insert acc k v) :
    ∀ {extra acc : Members}, extra.keys.Nodup → (∀ k ∈ extra.keys, k ∉ acc.keys) →
      extra.foldl f acc = acc ++ extra := by
  intro extra
  induction extra with
  | nil => intros; simp
  | cons m rest ih =>
    intro acc nodup fresh
    obtain ⟨k, v⟩ := m
    simp only [keys, List.map_cons, List.nodup_cons] at nodup
    rw [List.foldl_cons, inserts, insert_of_not_mem (fresh k List.mem_cons_self),
      ih nodup.2 (fresh_after_append nodup.1 fun k' member => fresh k' (List.mem_cons_of_mem k member))]
    simp

end Members

theorem foldl_takeMatching
    {step : List (String × Option Value) × Members → String → List (String × Option Value) × Members}
    (stepped : ∀ found rest k,
      step (found, rest) k = (found ++ [(k, (Members.swapRemove rest k).1)], (Members.swapRemove rest k).2))
    {ks : List String} (distinct : ks.Nodup) :
    ∀ (found : List (String × Option Value)) {rest : Members}, rest.keys.Nodup →
      ∃ left, ks.foldl step (found, rest) = (found ++ ks.map (fun k => (k, rest.get? k)), left) ∧
        left.Perm (rest.filter fun m => m.1 ∉ ks) := by
  induction ks with
  | nil =>
    intro found rest _
    exact ⟨rest, by simp, by simp⟩
  | cons k ks ih =>
    intro found rest nodup
    obtain ⟨fresh, distinct⟩ := List.nodup_cons.mp distinct
    have removed := Members.swapRemove_perm (k := k) nodup
    have nodup' := Members.nodup_swapRemove (k := k) nodup
    obtain ⟨left, run, perm⟩ := ih distinct (found ++ [(k, rest.get? k)]) nodup'
    refine ⟨left, ?_, ?_⟩
    · rw [List.foldl_cons, stepped, Members.swapRemove_fst, run]
      simp only [List.append_assoc, List.map_cons, List.singleton_append, Prod.mk.injEq, and_true]
      congr 2
      refine List.map_congr_left fun k' member => ?_
      have other : k' ≠ k := fun same => fresh (same ▸ member)
      rw [Members.get?_of_perm removed nodup', Members.get?_filter_ne other]
    · refine perm.trans ((removed.filter _).trans ?_)
      rw [List.filter_filter]
      refine (List.filter_congr fun (m : String × Value) _ => ?_) ▸ List.Perm.refl _
      by_cases same : m.1 = k <;> simp [same]

theorem takeMatching_eq {ks : List String} {updated : Members} (distinct : ks.Nodup)
    (nodup : updated.keys.Nodup) :
    ∃ left, takeMatching ks updated = (ks.map (fun k => (k, updated.get? k)), left) ∧
      left.Perm (updated.filter fun m => m.1 ∉ ks) := by
  unfold takeMatching
  simpa using foldl_takeMatching (fun _ _ _ => rfl) distinct [] nodup

namespace Members

private theorem zip_found_map (updated : Members) (kept : Members) :
    (kept.zip (kept.map fun m => (m.1, updated.get? m.1))).map
        (fun (x : (String × Value) × (String × Option Value)) => (x.1.1, x.2.2.getD x.1.2)) =
      kept.map fun m => (m.1, (updated.get? m.1).getD m.2) := by
  induction kept with
  | nil => rfl
  | cons m rest ih => simp only [List.map_cons, List.zip_cons_cons, ih]

/-- What merging `updated` into a document makes of one of its members: the member under its new
value when `updated` has one, else the member itself when it holds an empty object or array. -/
def mergedMember (updated : Members) (m : String × Value) : Option (String × Value) :=
  match updated.get? m.1 with
  | some w => some (m.1, w)
  | none => if isEmptyCollection m.2 then some m else none

theorem map_filter_eq_filterMap (updated document : Members) :
    (document.filter fun m => updated.contains m.1 || isEmptyCollection m.2).map
        (fun m => (m.1, (updated.get? m.1).getD m.2)) =
      document.filterMap (mergedMember updated) := by
  induction document with
  | nil => rfl
  | cons m rest ih =>
    cases found : updated.get? m.1 with
    | some w =>
      have : updated.contains m.1 = true := contains_iff.mpr (by
        by_contra absent
        rw [← get?_eq_none_iff, found] at absent
        cases absent)
      simp [mergedMember, this, found, ih]
    | none =>
      have : updated.contains m.1 = false :=
        Bool.eq_false_iff.mpr fun c => get?_eq_none_iff.mp found (contains_iff.mp c)
      by_cases hollow : isEmptyCollection m.2 <;> simp [mergedMember, this, found, hollow, ih]

theorem keys_filterMap_mergedMember (updated document : Members) :
    keys (document.filterMap (mergedMember updated)) =
      keys (document.filter fun m => updated.contains m.1 || isEmptyCollection m.2) := by
  rw [← map_filter_eq_filterMap]
  simp [keys, Function.comp_def]

/-- Merging `updated` into a document, both with keys told apart: the members of the document
that survive, in their places and under their new values, then the members of `updated` under the
keys the document lacks, in the order the removals leave them. -/
theorem mergeInPlace_eq_append {document updated : Members} (distinct : document.keys.Nodup)
    (nodup : updated.keys.Nodup) :
    ∃ added, mergeInPlace document updated = document.filterMap (mergedMember updated) ++ added ∧
      added.Perm (updated.filter fun m => m.1 ∉ document.keys) := by
  unfold mergeInPlace
  generalize keptDef : List.filter _ document = kept
  have keptKeys : (kept.map (·.1)).Nodup := keptDef ▸ nodup_keys_filter _ distinct
  obtain ⟨left, taken, perm⟩ := takeMatching_eq keptKeys nodup
  have sameKeys : ∀ m ∈ updated, m.1 ∈ kept.map (·.1) ↔ m.1 ∈ document.keys := by
    intro m member
    constructor
    · intro kept'
      obtain ⟨m', inKept, same⟩ := List.mem_map.mp kept'
      rw [← keptDef] at inKept
      exact same ▸ mem_keys_of_mem (List.mem_filter.mp inKept).1
    · intro present
      obtain ⟨m', inDocument, same⟩ := List.mem_map.mp present
      refine List.mem_map.mpr ⟨m', keptDef ▸ List.mem_filter.mpr ⟨inDocument, ?_⟩, same⟩
      simp [same, contains_iff.mpr (mem_keys_of_mem member)]
  have leftPerm : left.Perm (updated.filter fun m => m.1 ∉ document.keys) := by
    refine perm.trans (List.Perm.of_eq (List.filter_congr fun m member => ?_))
    simp [sameKeys m member]
  have leftNodup : left.keys.Nodup :=
    nodup_keys_of_perm leftPerm.symm (nodup_keys_filter _ nodup)
  have zipped : (kept.zip (kept.map fun m => (m.1, updated.get? m.1))).map
      (fun (x : (String × Value) × (String × Option Value)) => (x.1.1, x.2.2.getD x.1.2)) =
      document.filterMap (mergedMember updated) := by
    rw [zip_found_map, ← keptDef]
    exact map_filter_eq_filterMap updated document
  have fresh : ∀ k ∈ left.keys, k ∉ keys (document.filterMap (mergedMember updated)) := by
    intro k member present
    rw [keys_filterMap_mergedMember] at present
    have inDocument : k ∈ document.keys :=
      (List.Sublist.map _ List.filter_sublist).subset present
    obtain ⟨m, inLeft, rfl⟩ := List.mem_map.mp member
    exact (List.mem_filter.mp (leftPerm.subset inLeft)).2 |> fun absent => by simp_all
  refine ⟨left, ?_, leftPerm⟩
  dsimp only
  rw [taken, List.map_map]
  rw [show ((fun k => (k, updated.get? k)) ∘ fun x : String × Value => x.1) =
    fun m => (m.1, updated.get? m.1) from rfl]
  dsimp only
  rw [zipped]
  exact foldl_insert_fresh (fun _ _ _ => rfl) leftNodup fresh

/-- Merging an update whose keys the document has already: each member of the document keeps its
place and takes the update's value under its key; without one, it stays when it holds an empty
object or array and goes otherwise. -/
theorem mergeInPlace_eq {document updated : Members} (distinct : document.keys.Nodup)
    (nodup : updated.keys.Nodup) (within : ∀ k ∈ updated.keys, k ∈ document.keys) :
    mergeInPlace document updated = document.filterMap (mergedMember updated) := by
  obtain ⟨added, merged, perm⟩ := mergeInPlace_eq_append distinct nodup
  have empty : updated.filter (fun m => m.1 ∉ document.keys) = [] :=
    List.filter_eq_nil_iff.mpr fun m member => by simpa using within m.1 (mem_keys_of_mem member)
  have none : added = [] := List.Perm.eq_nil (empty ▸ perm)
  rw [merged, none, List.append_nil]

@[simp] theorem get?_cons_self {rest : Members} {k : String} {v : Value} :
    get? ((k, v) :: rest) k = some v := by
  simp [get?]

theorem get?_cons_of_ne {rest : Members} {k k' : String} {v : Value} (other : k' ≠ k) :
    get? ((k', v) :: rest) k = get? rest k := by
  simp [get?, other]

theorem get?_filterMap {ms : Members} {f : String × Value → Option (String × Value)}
    (keeps : ∀ m m', f m = some m' → m'.1 = m.1) (distinct : ms.keys.Nodup) (k : String) :
    get? (ms.filterMap f) k = (ms.get? k).bind fun v => (f (k, v)).map (·.2) := by
  induction ms with
  | nil => rfl
  | cons m rest ih =>
    obtain ⟨k', v'⟩ := m
    simp only [keys, List.map_cons, List.nodup_cons] at distinct
    have restGet := ih distinct.2
    by_cases same : k' = k
    · subst same
      have absent : get? rest k' = none := get?_eq_none_iff.mpr distinct.1
      cases chosen : f (k', v') with
      | none =>
        rw [List.filterMap_cons_none chosen, restGet, absent, get?_cons_self]
        simp [chosen]
      | some m' =>
        obtain ⟨k'', w⟩ := m'
        have key : k'' = k' := keeps _ _ chosen
        subst key
        rw [List.filterMap_cons_some chosen, get?_cons_self, get?_cons_self]
        simp [chosen]
    · cases chosen : f (k', v') with
      | none => rw [List.filterMap_cons_none chosen, restGet, get?_cons_of_ne same]
      | some m' =>
        obtain ⟨k'', w⟩ := m'
        have key : k'' = k' := keeps _ _ chosen
        subst key
        rw [List.filterMap_cons_some chosen, get?_cons_of_ne same, restGet, get?_cons_of_ne same]

theorem mergedMember_key {updated : Members} {m m' : String × Value}
    (chosen : mergedMember updated m = some m') : m'.1 = m.1 := by
  unfold mergedMember at chosen
  split at chosen
  · cases chosen
    rfl
  · split at chosen
    · cases chosen
      rfl
    · cases chosen

theorem get?_mergeInPlace {document updated : Members} (distinct : document.keys.Nodup)
    (nodup : updated.keys.Nodup) (k : String) :
    (mergeInPlace document updated).get? k =
      (updated.get? k).or ((document.get? k).filter isEmptyCollection) := by
  obtain ⟨added, merged, perm⟩ := mergeInPlace_eq_append distinct nodup
  have fromAdded : added.get? k = if k ∈ document.keys then none else updated.get? k := by
    rw [get?_of_perm perm (nodup_keys_of_perm perm.symm (nodup_keys_filter _ nodup)),
      get?_filter_not_mem]
  rw [merged, get?_append, get?_filterMap (fun _ _ => mergedMember_key) distinct, fromAdded]
  cases found : document.get? k with
  | none =>
    have absent : k ∉ document.keys := get?_eq_none_iff.mp found
    simp [absent]
  | some v =>
    have present : k ∈ document.keys := mem_keys_of_mem (mem_of_get?_eq_some found)
    cases fresh : updated.get? k with
    | none =>
      by_cases hollow : isEmptyCollection v <;>
        simp [mergedMember, fresh, hollow, present, Option.filter_some]
    | some w => simp [mergedMember, fresh, present]

theorem keys_mergeInPlace {document updated : Members} (distinct : document.keys.Nodup)
    (nodup : updated.keys.Nodup) :
    ∃ added, (mergeInPlace document updated).keys =
        keys (document.filter fun m => updated.contains m.1 || isEmptyCollection m.2) ++ added ∧
      added.Perm (keys (updated.filter fun m => m.1 ∉ document.keys)) := by
  obtain ⟨added, merged, perm⟩ := mergeInPlace_eq_append distinct nodup
  refine ⟨added.keys, ?_, perm.map _⟩
  rw [merged, ← keys_filterMap_mergedMember]
  simp [keys]

theorem mergedMember_idem {updated : Members} {m m' : String × Value}
    (chosen : mergedMember updated m = some m') : mergedMember updated m' = some m' := by
  unfold mergedMember at chosen
  split at chosen
  · rename_i w found
    cases chosen
    simp [mergedMember, found]
  · rename_i missing
    split at chosen
    · rename_i hollow
      cases chosen
      simp [mergedMember, missing, hollow]
    · cases chosen

theorem mergeInPlace_idem {document updated : Members} (distinct : document.keys.Nodup)
    (nodup : updated.keys.Nodup) :
    mergeInPlace (mergeInPlace document updated) updated = mergeInPlace document updated := by
  obtain ⟨added, merged, perm⟩ := mergeInPlace_eq_append distinct nodup
  have addedKeys : ∀ k ∈ added.keys, k ∉ document.keys := by
    intro k member
    obtain ⟨m, inAdded, rfl⟩ := List.mem_map.mp member
    simpa using (List.mem_filter.mp (perm.subset inAdded)).2
  have keptKeys : List.Sublist (keys (document.filterMap (mergedMember updated))) document.keys := by
    rw [keys_filterMap_mergedMember]
    exact List.filter_sublist.map _
  have distinct' : (mergeInPlace document updated).keys.Nodup := by
    rw [merged, keys, List.map_append]
    refine List.nodup_append.mpr ⟨keptKeys.nodup distinct,
      nodup_keys_of_perm perm.symm (nodup_keys_filter _ nodup), ?_⟩
    intro a inKept b inAdded same
    exact addedKeys b inAdded (same ▸ keptKeys.subset inKept)
  have within : ∀ k ∈ updated.keys, k ∈ (mergeInPlace document updated).keys := by
    intro k member
    obtain ⟨w, found⟩ := Option.ne_none_iff_exists'.mp (mt get?_eq_none_iff.mp (not_not.mpr member))
    have held : (mergeInPlace document updated).get? k = some w := by
      rw [get?_mergeInPlace distinct nodup, found, Option.some_or]
    exact mem_keys_of_mem (mem_of_get?_eq_some held)
  have fixed : ∀ m ∈ mergeInPlace document updated, mergedMember updated m = some m := by
    intro m member
    rw [merged] at member
    rcases List.mem_append.mp member with inKept | inAdded
    · obtain ⟨m₀, -, chosen⟩ := List.mem_filterMap.mp inKept
      exact mergedMember_idem chosen
    · have inUpdate := (List.mem_filter.mp (perm.subset inAdded)).1
      simp [mergedMember, get?_eq_some_of_mem nodup inUpdate]
  rw [mergeInPlace_eq distinct' nodup within, List.filterMap_congr fixed, List.filterMap_some]

/-- What merging `updated` into `document` keeps of the document's layout: under each key the
merge holds the update's value, or else the document's empty object or array; its keys are the
document's surviving keys in their order followed by the update's other keys in some order; and
merging the same update again leaves it as it is. -/
def KeepsLayout (document updated : Members) : Prop :=
  (∀ k, (mergeInPlace document updated).get? k =
      (updated.get? k).or ((document.get? k).filter isEmptyCollection)) ∧
    (∃ added, (mergeInPlace document updated).keys =
        keys (document.filter fun m => updated.contains m.1 || isEmptyCollection m.2) ++ added ∧
      added.Perm (keys (updated.filter fun m => m.1 ∉ document.keys))) ∧
    mergeInPlace (mergeInPlace document updated) updated = mergeInPlace document updated

/-- Merging objects, each with its keys told apart, keeps the document's layout. -/
theorem mergeInPlace_keepsLayout {document updated : Members} (distinct : document.keys.Nodup)
    (nodup : updated.keys.Nodup) : KeepsLayout document updated :=
  ⟨get?_mergeInPlace distinct nodup, keys_mergeInPlace distinct nodup,
    mergeInPlace_idem distinct nodup⟩

/-- Merging `{a, b, c}` into `{a}`. -/
theorem mergeInPlace_keepsLayout_of_two_new_keys :
    (keys [("a", Value.nat 1)]).Nodup ∧
      (keys [("a", Value.nat 2), ("b", Value.nat 3), ("c", Value.nat 4)]).Nodup ∧
      KeepsLayout [("a", Value.nat 1)] [("a", Value.nat 2), ("b", Value.nat 3), ("c", Value.nat 4)] :=
  ⟨by decide, by decide, mergeInPlace_keepsLayout (by decide) (by decide)⟩

/-- The two keys `{a}` lacks are appended as `c`, `b`: taking `a` out of the update moves its
last member `c` into the gap before `b`. -/
theorem mergeInPlace_appends_out_of_order :
    (mergeInPlace [("a", Value.nat 1)] [("a", Value.nat 2), ("b", Value.nat 3), ("c", Value.nat 4)]).keys =
      ["a", "c", "b"] := by
  decide

end Members

end Monorepo.Json
