import Monorepo.Tree.Basic
import Monorepo.Proofs.Disk

/-! The overlay as a map from paths. Staging a path replaces whatever it held and dropping it
forgets it, with every other path untouched; the staged files below a directory are the staged
files whose paths lie below it; a path is shadowed when a staged file stands above it. -/

namespace Monorepo.StagedTree

open Monorepo.Tree

variable {t : StagedTree}

private theorem find?_split {α : Type} {l : List α} {f g : α → Bool} {side : Bool}
    (sameSide : ∀ x, f x = true → g x = side) :
    ((l.filter g).find? f).or ((l.filter fun x => !g x).find? f) = l.find? f := by
  cases side
  · have none : (l.filter g).find? f = none := List.find?_eq_none.mpr fun x member found => by
      have := sameSide x found
      simp_all
    rw [none, Option.none_or, find?_filter_of_imp fun x found => by simp [sameSide x found]]
  · have none : (l.filter fun x => !g x).find? f = none :=
      List.find?_eq_none.mpr fun x member found => by
        have := sameSide x found
        simp_all
    rw [none, Option.or_none, find?_filter_of_imp fun x found => sameSide x found]

theorem staged?_setStaged (p q : Path) (s : Staged) :
    (t.setStaged p s).staged? q = if q = p then some s else t.staged? q := by
  set rest := t.overlay.filter (·.1 != p) with rest_def
  have shape : (t.setStaged p s).overlay =
      (rest.filter fun e => e.1.lt p) ++ (p, s) :: (rest.filter fun e => !(e.1.lt p)) := by
    simp [setStaged, rest_def]
  simp only [staged?, shape, List.find?_append]
  by_cases same : q = p
  · subst same
    have absent : (rest.filter fun e => e.1.lt q).find? (·.1 == q) = none :=
      List.find?_eq_none.mpr fun e member => by
        simp only [rest_def, List.mem_filter] at member
        simpa using member.1.2
    simp [absent]
  · have kept : ∀ e : Path × Staged, (e.1 == q) = true → (e.1 != p) = true := by
      intro e key
      simp only [beq_iff_eq] at key
      simp [key, same]
    have sameSide : ∀ e : Path × Staged, (e.1 == q) = true → e.1.lt p = q.lt p := by
      intro e key
      simp only [beq_iff_eq] at key
      rw [key]
    have skipped : ((p, s).1 == q) = false := by simpa using Ne.symm same
    rw [List.find?_cons, skipped, if_neg same]
    simp only
    rw [find?_split sameSide, rest_def, find?_filter_of_imp kept]

theorem staged?_unstage (p q : Path) :
    (t.unstage p).staged? q = if q = p then none else t.staged? q := by
  simp only [staged?, unstage]
  by_cases same : q = p
  · subst same
    have absent : (t.overlay.filter (·.1 != q)).find? (·.1 == q) = none :=
      List.find?_eq_none.mpr fun e member => by
        simp only [List.mem_filter] at member
        simpa using member.2
    simp [absent]
  · have kept : ∀ e : Path × Staged, (e.1 == q) = true → (e.1 != p) = true := by
      intro e key
      simp only [beq_iff_eq] at key
      simp [key, same]
    rw [find?_filter_of_imp kept, if_neg same]

theorem mem_setStaged {p : Path} {s : Staged} {e : Path × Staged} :
    e ∈ (t.setStaged p s).overlay ↔ e = (p, s) ∨ e ∈ t.overlay ∧ e.1 ≠ p := by
  simp only [setStaged, List.append_assoc, List.mem_append, List.mem_filter, List.mem_singleton]
  constructor
  · rintro (⟨⟨member, key⟩, -⟩ | same | ⟨⟨member, key⟩, -⟩)
    · exact .inr ⟨member, by simpa using key⟩
    · exact .inl same
    · exact .inr ⟨member, by simpa using key⟩
  · rintro (same | ⟨member, key⟩)
    · exact .inr (.inl same)
    · by_cases earlier : e.1.lt p = true
      · exact .inl ⟨⟨member, by simpa using key⟩, earlier⟩
      · exact .inr (.inr ⟨⟨member, by simpa using key⟩, by simpa using earlier⟩)

theorem keys_setStaged (unique : (t.overlay.map (·.1)).Nodup) (p : Path) (s : Staged) :
    ((t.setStaged p s).overlay.map (·.1)).Nodup := by
  set rest := t.overlay.filter (·.1 != p)
  have split : List.Perm ((rest.filter fun e => e.1.lt p) ++ (rest.filter fun e => !(e.1.lt p)))
      rest := List.filter_append_perm _ rest
  have moved : List.Perm (t.setStaged p s).overlay ((p, s) :: rest) := by
    simp only [setStaged, List.append_assoc, List.singleton_append]
    exact List.perm_middle.trans (List.Perm.cons _ split)
  rw [(moved.map (·.1)).nodup_iff]
  refine List.nodup_cons.mpr ⟨?_, ?_⟩
  · simp [rest]
  · exact (unique.sublist (List.filter_sublist.map _))

theorem keys_unstage (unique : (t.overlay.map (·.1)).Nodup) (p : Path) :
    ((t.unstage p).overlay.map (·.1)).Nodup :=
  unique.sublist (List.filter_sublist.map _)

theorem mem_unstage {p : Path} {e : Path × Staged} :
    e ∈ (t.unstage p).overlay ↔ e ∈ t.overlay ∧ e.1 ≠ p := by
  simp [unstage]

theorem staged?_eq_some_iff (unique : (t.overlay.map (·.1)).Nodup) {p : Path} {s : Staged} :
    t.staged? p = some s ↔ (p, s) ∈ t.overlay :=
  find?_fst_eq_some_iff unique

theorem stagedFile_iff {p : Path} : t.stagedFile p = true ↔ ∃ c, t.staged? p = some (.content c) := by
  unfold stagedFile
  split <;> simp_all

theorem shadowed_iff {p : Path} :
    t.shadowed p = true ↔ ∃ k < p.length, t.stagedFile ⟨p.segments.take k⟩ = true := by
  simp [shadowed]

theorem mem_stagedFilesBelow (unique : (t.overlay.map (·.1)).Nodup) {d q : Path} :
    q ∈ t.stagedFilesBelow d ↔ t.stagedFile q = true ∧ q.IsBelow d := by
  simp only [stagedFilesBelow, List.mem_filterMap, stagedFile_iff, staged?_eq_some_iff unique]
  constructor
  · rintro ⟨⟨q', s⟩, member, listed⟩
    cases s with
    | content c =>
      simp only [Bool.and_eq_true, gt_iff_lt, decide_eq_true_eq, Path.startsWith,
        List.isPrefixOf_iff_prefix] at listed
      split at listed
      · rename_i below
        simp only [Option.some.injEq] at listed
        subst listed
        exact ⟨⟨c, member⟩, below.1, below.2⟩
      · simp at listed
    | deleted => simp at listed
  · rintro ⟨⟨c, member⟩, under, longer⟩
    refine ⟨(q, .content c), member, ?_⟩
    simp [Path.startsWith, List.isPrefixOf_iff_prefix, under, longer]

end Monorepo.StagedTree
