import Mathlib.Data.List.Nodup
import Monorepo.Disk.Basic
import Monorepo.Proofs.Outcome
import Monorepo.Proofs.Path

/-! Disks that a file system can show: one entry per location, every location above an entry a
directory. On such a disk the system calls behave as their names say: a read finds the file or
names the first component in the way, a directory lists exactly the entries one level below. -/

namespace Monorepo

/-- A name that is a plain path segment. -/
def Name.Plain : Name → Prop
  | .text s => Path.PlainSegment s
  | .raw _ => False

instance : DecidablePred Name.Plain := fun n =>
  match n with
  | .text s => inferInstanceAs (Decidable (Path.PlainSegment s))
  | .raw _ => inferInstanceAs (Decidable False)

theorem find?_fst_eq_some_iff {κ ν : Type} [BEq κ] [LawfulBEq κ] {l : List (κ × ν)} {k : κ}
    {v : ν} (unique : (l.map (·.1)).Nodup) :
    (l.find? (·.1 == k)).map (·.2) = some v ↔ (k, v) ∈ l := by
  constructor
  · intro found
    obtain ⟨x, hx, rfl⟩ := Option.map_eq_some_iff.mp found
    have key : x.1 = k := by simpa using List.find?_some hx
    have member := List.mem_of_find?_eq_some hx
    rwa [← key]
  · intro member
    have present : (l.find? (·.1 == k)).isSome := List.find?_isSome.mpr ⟨(k, v), member, by simp⟩
    obtain ⟨x, hx⟩ := Option.isSome_iff_exists.mp present
    have key : x.1 = k := by simpa using List.find?_some hx
    have same : x = (k, v) :=
      List.inj_on_of_nodup_map unique (List.mem_of_find?_eq_some hx) member key
    rw [hx, same]
    rfl

theorem find?_filter_of_imp {α : Type} {l : List α} {f g : α → Bool}
    (keeps : ∀ x, f x = true → g x = true) : (l.filter g).find? f = l.find? f := by
  rw [List.find?_filter]
  congr 1
  funext x
  by_cases found : f x = true
  · simp [found, keeps x found]
  · simp [found]

namespace Disk

/-- A disk as a file system shows it: each location holds one entry, and every location above an
entry is a directory. -/
structure Shaped (d : Disk) : Prop where
  unique : (d.entries.map (·.1)).Nodup
  parents : ∀ e ∈ d.entries, ∀ k < e.1.length, d.get? (e.1.take k) = some .dir

/-- A workspace on a disk: the directory `base`, below which every name is a plain segment. -/
structure Workspace (d : Disk) (base : List Name) : Prop extends d.Shaped where
  top : d.get? base = some .dir
  plain : ∀ e ∈ d.entries, base <+: e.1 → ∀ n ∈ e.1.drop base.length, n.Plain

variable {d : Disk}

@[simp] theorem get?_nil (d : Disk) : d.get? [] = some .dir := rfl

theorem get?_eq_some_iff (shaped : d.Shaped) {p : List Name} {e : Entry} (nonempty : p ≠ []) :
    d.get? p = some e ↔ (p, e) ∈ d.entries := by
  simp only [get?, List.isEmpty_iff, nonempty, if_false]
  exact find?_fst_eq_some_iff shaped.unique

theorem isDir_iff {p : List Name} : d.isDir p = true ↔ d.get? p = some .dir := by
  simp [isDir]

theorem isFile_iff {p : List Name} : d.isFile p = true ↔ ∃ c, d.get? p = some (.file c) := by
  unfold isFile
  split <;> simp_all

theorem get?_take (shaped : d.Shaped) {p : List Name} {e : Entry} (found : d.get? p = some e)
    {k : Nat} (shorter : k < p.length) : d.get? (p.take k) = some .dir := by
  have nonempty : p ≠ [] := by
    rintro rfl
    simp at shorter
  exact shaped.parents (p, e) ((get?_eq_some_iff shaped nonempty).mp found) k shorter

theorem get?_of_file_above (shaped : d.Shaped) {p : List Name} {k : Nat} {c : Utf8.Bytes}
    (file : d.get? (p.take k) = some (.file c)) (shorter : k < p.length) : d.get? p = none := by
  cases found : d.get? p with
  | none => rfl
  | some e =>
    have dir := get?_take shaped found shorter
    rw [file] at dir
    cases dir

theorem forM_eq_ok_iff {l : List Nat} {f : Nat → Except OsError Unit} :
    l.forM f = .ok () ↔ ∀ k ∈ l, f k = .ok () := by
  induction l with
  | nil => simp
  | cons k rest ih =>
    cases first : f k with
    | error e => simp [first]
    | ok u => simpa [first, List.forM_eq_forM] using ih

theorem forM_ok_or_error {l : List Nat} {f : Nat → Except OsError Unit} {e : OsError}
    (each : ∀ k ∈ l, f k = .ok () ∨ f k = .error e) :
    l.forM f = .ok () ∨ l.forM f = .error e := by
  induction l with
  | nil => exact .inl rfl
  | cons k rest ih =>
    rcases each k (by simp) with ok | failed
    · simp only [List.forM_eq_forM, List.forM_cons, ok, except_ok_bind]
      exact ih fun k' member => each k' (by simp [member])
    · exact .inr (by simp [failed])

theorem checkParents_eq_ok_iff {p : List Name} :
    d.checkParents p = .ok () ↔ ∀ k < p.length, d.get? (p.take k) = some .dir := by
  rw [checkParents, forM_eq_ok_iff]
  constructor
  · intro each k shorter
    rcases Nat.eq_zero_or_pos k with rfl | positive
    · simp
    have step := each (k - 1) (List.mem_range.mpr (by omega))
    rw [Nat.sub_add_cancel positive] at step
    split at step <;> simp_all
  · intro dirs k member
    have within := List.mem_range.mp member
    simp [dirs (k + 1) (by omega)]

theorem checkParents_of_get? (shaped : d.Shaped) {p : List Name} {e : Entry}
    (found : d.get? p = some e) : d.checkParents p = .ok () :=
  checkParents_eq_ok_iff.mpr fun _ shorter => get?_take shaped found shorter

theorem forM_range_of_first_error {n : Nat} (i : Nat) {f : Nat → Except OsError Unit} {e : OsError}
    (within : i < n) (before : ∀ j < i, f j = .ok ()) (failed : f i = .error e) :
    (List.range n).forM f = .error e := by
  obtain ⟨m, rfl⟩ : ∃ m, n = i + (m + 1) := ⟨n - i - 1, by omega⟩
  have prefixOk : (List.range i).forM f = .ok () :=
    forM_eq_ok_iff.mpr fun j member => before j (List.mem_range.mp member)
  simp only [List.forM_eq_forM] at prefixOk
  simp [List.range_add, List.range_succ_eq_map, prefixOk, failed]

theorem checkParents_of_file_above (shaped : d.Shaped) {p : List Name}
    (inTheWay : ∃ k < p.length, d.isFile (p.take k) = true) :
    d.checkParents p = .error .notDirectory := by
  obtain ⟨k, shorter, isFile⟩ := inTheWay
  obtain ⟨c, file⟩ := isFile_iff.mp isFile
  have positive : 0 < k := by
    rcases Nat.eq_zero_or_pos k with rfl | positive
    · simp at file
    · exact positive
  refine forM_range_of_first_error (k - 1) (by omega) (fun j earlier => ?_) ?_
  · have dir := get?_take shaped file (show j + 1 < (p.take k).length by simp; omega)
    simp only [List.take_take, Nat.min_eq_left (show j + 1 ≤ k by omega)] at dir
    simp [dir]
  · simp [Nat.sub_add_cancel positive, file]

theorem checkParents_of_no_file_above {p : List Name}
    (clear : ¬∃ k < p.length, d.isFile (p.take k) = true) :
    d.checkParents p = .ok () ∨ d.checkParents p = .error .notFound := by
  refine forM_ok_or_error fun j member => ?_
  have within : j + 1 < p.length := by
    have := List.mem_range.mp member
    omega
  cases found : d.get? (p.take (j + 1)) with
  | none => simp
  | some e =>
    cases e with
    | dir => simp
    | file c => exact absurd ⟨j + 1, within, isFile_iff.mpr ⟨c, found⟩⟩ clear

theorem read_of_file (shaped : d.Shaped) {p : List Name} {c : Utf8.Bytes}
    (found : d.get? p = some (.file c)) : d.read p = .ok c := by
  simp [read, checkParents_of_get? shaped found, found]

theorem read_of_dir (shaped : d.Shaped) {p : List Name} (found : d.get? p = some .dir) :
    d.read p = .error .isDirectory := by
  simp [read, checkParents_of_get? shaped found, found]

theorem read_of_none (shaped : d.Shaped) {p : List Name} (missing : d.get? p = none) :
    d.read p = .error (if ∃ k < p.length, d.isFile (p.take k) = true
      then .notDirectory else .notFound) := by
  split
  · rename_i inTheWay
    simp [read, checkParents_of_file_above shaped inTheWay]
  · rename_i clear
    rcases checkParents_of_no_file_above clear with ok | failed
    · simp [read, ok, missing]
    · simp [read, failed]

theorem read_eq_ok_iff (shaped : d.Shaped) {p : List Name} {c : Utf8.Bytes} :
    d.read p = .ok c ↔ d.get? p = some (.file c) := by
  constructor
  · intro read
    cases found : d.get? p with
    | none =>
      rw [read_of_none shaped found] at read
      split at read <;> cases read
    | some e =>
      cases e with
      | file c' =>
        rw [read_of_file shaped found] at read
        cases read
        rfl
      | dir =>
        rw [read_of_dir shaped found] at read
        cases read
  · exact read_of_file shaped

theorem isFile_of_read {p : List Name} {c : Utf8.Bytes} (read : d.read p = .ok c) :
    d.isFile p = true := by
  unfold Disk.read at read
  obtain ⟨_, -, read⟩ := except_bind_eq_ok.mp read
  unfold isFile
  split at read <;> simp_all

theorem readDir_of_dir (shaped : d.Shaped) {p : List Name} (found : d.get? p = some .dir) :
    d.readDir p = .ok ((d.childEntries p).map (·.1)) := by
  simp [readDir, checkParents_of_get? shaped found, found]

theorem mem_childEntries {p : List Name} {n : Name} {e : Entry} :
    (n, e) ∈ d.childEntries p ↔ (p ++ [n], e) ∈ d.entries := by
  simp only [childEntries, List.mem_filterMap]
  constructor
  · rintro ⟨⟨q, e'⟩, member, listed⟩
    split at listed
    · rename_i shape
      simp only [Bool.and_eq_true, beq_iff_eq, List.isPrefixOf_iff_prefix] at shape
      obtain ⟨longer, rest, rfl⟩ := shape
      obtain ⟨m, rfl⟩ : ∃ m, rest = [m] := by
        match rest, longer with
        | [m], _ => exact ⟨m, rfl⟩
        | [], h => simp at h
        | _ :: _ :: _, h => simp at h
      simp at listed
      obtain ⟨rfl, rfl⟩ := listed
      exact member
    · simp at listed
  · intro member
    exact ⟨(p ++ [n], e), member, by simp [List.isPrefixOf_iff_prefix]⟩

theorem mem_below {p : List Name} {x : List Name × Entry} :
    x ∈ d.below p ↔ x ∈ d.entries ∧ p <+: x.1 ∧ p.length < x.1.length := by
  simp [below, List.isPrefixOf_iff_prefix, and_comm]

end Disk

end Monorepo
