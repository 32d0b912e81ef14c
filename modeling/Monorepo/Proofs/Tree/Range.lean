import Mathlib.Data.List.TakeWhile
import Monorepo.Proofs.Tree.Changes

/-! The staged files below a directory as one range of the overlay. Paths sort segment by
segment, so a path sorts after every path it starts with, and of two paths in order the first
starts with a directory whenever it does not sort before it and the second starts with it. The
paths of an ordered overlay that start with a directory therefore stand together, right where
the directory itself would stand: a scan that starts at the directory and stops at the first
path outside it finds every staged file below it. Main statement: `Ordered.rangeFilesBelow_eq`. -/

namespace Monorepo.Path

theorem not_lt_of_prefix {d : List String} : ∀ {p : List String}, d <+: p → ¬p < d := by
  induction d with
  | nil => exact fun _ => List.not_lt_nil _
  | cons x d ih =>
    rintro p ⟨rest, rfl⟩
    rw [List.cons_append, List.cons_lt_cons_iff]
    rintro (less | ⟨-, below⟩)
    · exact lt_irrefl x less
    · exact ih ⟨rest, rfl⟩ below

theorem prefix_of_between {d : List String} :
    ∀ {a b : List String}, ¬a < d → a < b → d <+: b → d <+: a := by
  induction d with
  | nil => exact fun _ _ _ => List.nil_prefix
  | cons x d ih =>
    rintro a b notBefore earlier ⟨rest, rfl⟩
    cases a with
    | nil => exact absurd (List.nil_lt_cons x d) notBefore
    | cons y a =>
      rw [List.cons_append, List.cons_lt_cons_iff] at earlier
      rw [List.cons_lt_cons_iff, not_or, not_and] at notBefore
      obtain ⟨same, later⟩ : y = x ∧ a < d ++ rest := by
        rcases earlier with less | agree
        · exact absurd less notBefore.1
        · exact agree
      subst same
      exact List.cons_prefix_cons.mpr ⟨rfl, ih (notBefore.2 rfl) later ⟨rest, rfl⟩⟩

theorem lt_eq_false_of_startsWith {p d : Path} (starts : p.startsWith d = true) :
    p.lt d = false := by
  have notBefore := not_lt_of_prefix (startsWith_iff.mp starts)
  simpa [← lt_iff] using notBefore

theorem startsWith_of_between {a b d : Path} (notBefore : a.lt d = false) (earlier : a.lt b = true)
    (starts : b.startsWith d = true) : a.startsWith d = true := by
  have notBefore : ¬a.segments < d.segments := by simpa [← lt_iff] using notBefore
  exact startsWith_iff.mpr (prefix_of_between notBefore (lt_iff.mp earlier) (startsWith_iff.mp starts))

theorem startsWith_self (p : Path) : p.startsWith p = true :=
  startsWith_iff.mpr (List.prefix_refl _)

end Monorepo.Path

namespace Monorepo.StagedTree

open Monorepo.Tree

variable {t : StagedTree}

theorem Ordered.keysUnique (ordered : t.Ordered) : (t.overlay.map (·.1)).Nodup :=
  Path.nodup_of_pairwise_lt (List.pairwise_map.mpr ordered)

section Interval

variable {dir : Path}

theorem dropWhile_lt_not_lt {l : List (Path × Staged)}
    (ordered : l.Pairwise fun a b => a.1.lt b.1 = true) :
    ∀ e ∈ l.dropWhile (fun e => e.1.lt dir), e.1.lt dir = false := by
  induction l with
  | nil => simp
  | cons first rest ih =>
    rw [List.pairwise_cons] at ordered
    by_cases before : first.1.lt dir = true
    · rw [List.dropWhile_cons, if_pos before]
      exact ih ordered.2
    · rw [List.dropWhile_cons, if_neg before]
      rintro e (_ | ⟨_, later⟩)
      · simpa using before
      · cases lower : e.1.lt dir
        · rfl
        · exact absurd (Path.lt_of_lt_of_lt (ordered.1 e later) lower) before

theorem dropWhile_startsWith_outside {l : List (Path × Staged)}
    (ordered : l.Pairwise fun a b => a.1.lt b.1 = true) (notBefore : ∀ e ∈ l, e.1.lt dir = false) :
    ∀ e ∈ l.dropWhile (fun e => e.1.startsWith dir), e.1.startsWith dir = false := by
  induction l with
  | nil => simp
  | cons first rest ih =>
    rw [List.pairwise_cons] at ordered
    by_cases inside : first.1.startsWith dir = true
    · rw [List.dropWhile_cons, if_pos inside]
      exact ih ordered.2 fun e member => notBefore e (List.mem_cons_of_mem _ member)
    · rw [List.dropWhile_cons, if_neg inside]
      rintro e (_ | ⟨_, later⟩)
      · simpa using inside
      · cases starts : e.1.startsWith dir
        · rfl
        · exact absurd (Path.startsWith_of_between (notBefore first (by simp))
            (ordered.1 e later) starts) inside

theorem Ordered.split (ordered : t.Ordered) (dir : Path) :
    let rest := t.overlay.dropWhile fun e => e.1.lt dir
    t.overlay = (t.overlay.takeWhile fun e => e.1.lt dir) ++
        (rest.takeWhile fun e => e.1.startsWith dir) ++ (rest.dropWhile fun e => e.1.startsWith dir) ∧
      (∀ e ∈ t.overlay.takeWhile (fun e => e.1.lt dir), e.1.lt dir = true) ∧
      (∀ e ∈ rest.takeWhile (fun e => e.1.startsWith dir), e.1.startsWith dir = true) ∧
      ∀ e ∈ rest.dropWhile (fun e => e.1.startsWith dir),
        e.1.startsWith dir = false ∧ dir.lt e.1 = true := by
  intro rest
  have notBefore : ∀ e ∈ rest, e.1.lt dir = false := dropWhile_lt_not_lt ordered
  have restOrdered : rest.Pairwise fun a b => a.1.lt b.1 = true :=
    ordered.sublist (List.dropWhile_suffix _).sublist
  refine ⟨?_, fun e member => List.mem_takeWhile_imp (p := fun e : Path × Staged => e.1.lt dir) member,
    fun e member => List.mem_takeWhile_imp (p := fun e : Path × Staged => e.1.startsWith dir) member,
    fun e member => ?_⟩
  · rw [List.append_assoc, List.takeWhile_append_dropWhile, List.takeWhile_append_dropWhile]
  · have outside := dropWhile_startsWith_outside restOrdered notBefore e member
    have notEarlier := notBefore e ((List.dropWhile_suffix _).subset member)
    have different : e.1 ≠ dir := fun same => by
      rw [same, Path.startsWith_self] at outside
      cases outside
    exact ⟨outside, Path.lt_of_not_lt different notEarlier⟩

end Interval

/-- On an ordered overlay, the paths in a directory form one run that starts where the directory
would stand, and scanning that run finds exactly the staged files below the directory, in path
order: the files that are staged at a path strictly below it. -/
theorem Ordered.rangeFilesBelow_eq (ordered : t.Ordered) (dir : Path) :
    (∃ before inside after, t.overlay = before ++ inside ++ after ∧
      (∀ e ∈ before, e.1.lt dir = true) ∧ (∀ e ∈ inside, e.1.startsWith dir = true) ∧
      ∀ e ∈ after, e.1.startsWith dir = false ∧ dir.lt e.1 = true) ∧
    rangeFilesBelow t.overlay dir = t.stagedFilesBelow dir ∧
    (∀ q, q ∈ rangeFilesBelow t.overlay dir ↔ t.stagedFile q = true ∧ q.IsBelow dir) ∧
    (rangeFilesBelow t.overlay dir).Pairwise fun a b => a.lt b = true := by
  obtain ⟨whole, before, inside, after⟩ := ordered.split dir
  have scanned : rangeFilesBelow t.overlay dir = t.stagedFilesBelow dir := by
    unfold rangeFilesBelow stagedFilesBelow
    conv => rhs; rw [whole, List.filterMap_append, List.filterMap_append]
    rw [(List.filterMap_eq_nil_iff (l := t.overlay.takeWhile fun e => e.1.lt dir)).mpr
        fun e member => ?early,
      (List.filterMap_eq_nil_iff
        (l := (t.overlay.dropWhile fun e => e.1.lt dir).dropWhile fun e => e.1.startsWith dir)).mpr
        fun e member => ?late, List.nil_append, List.append_nil]
    · refine List.filterMap_congr fun e member => ?_
      obtain ⟨p, s⟩ := e
      cases s <;> simp [inside _ member]
    case early =>
      obtain ⟨p, s⟩ := e
      have outside : p.startsWith dir = false := by
        cases starts : p.startsWith dir
        · rfl
        · have notBefore := Path.lt_eq_false_of_startsWith starts
          simp [before _ member] at notBefore
      cases s <;> simp [outside]
    case late =>
      obtain ⟨p, s⟩ := e
      cases s <;> simp [(after _ member).1]
  refine ⟨⟨_, _, _, whole, before, inside, after⟩, scanned, fun q => ?_, ?_⟩
  · rw [scanned, mem_stagedFilesBelow ordered.keysUnique]
  · have kept : (t.stagedFilesBelow dir).Sublist (t.overlay.map (·.1)) := by
      refine filterMap_sublist_map fun e q picked => ?_
      obtain ⟨p, s⟩ := e
      cases s <;> simp_all
    have sorted : (t.overlay.map (·.1)).Pairwise fun a b => a.lt b = true :=
      List.pairwise_map.mpr ordered
    rw [scanned]
    exact sorted.sublist kept

/-- The files of `a` are followed by the siblings `a-b` and `a0`, which sort after `a/b` and lie
outside `a`: the scan stops at `a-b` and finds `a/b` alone. -/
theorem Ordered.rangeFilesBelow_eq_before_siblings :
    let t : StagedTree :=
      { disk := {}
        overlay := [(⟨["a"]⟩, .deleted), (⟨["a", "b"]⟩, .content [1]), (⟨["a", "c"]⟩, .deleted),
          (⟨["a-b"]⟩, .content [2]), (⟨["a0"]⟩, .content [3])] }
    t.Ordered ∧ rangeFilesBelow t.overlay ⟨["a"]⟩ = [⟨["a", "b"]⟩] ∧
      (∃ before inside after, t.overlay = before ++ inside ++ after ∧
        (∀ e ∈ before, e.1.lt ⟨["a"]⟩ = true) ∧ (∀ e ∈ inside, e.1.startsWith ⟨["a"]⟩ = true) ∧
        ∀ e ∈ after, e.1.startsWith ⟨["a"]⟩ = false ∧ Path.lt ⟨["a"]⟩ e.1 = true) ∧
      rangeFilesBelow t.overlay ⟨["a"]⟩ = t.stagedFilesBelow ⟨["a"]⟩ ∧
      (∀ q, q ∈ rangeFilesBelow t.overlay ⟨["a"]⟩ ↔ t.stagedFile q = true ∧ q.IsBelow ⟨["a"]⟩) ∧
      (rangeFilesBelow t.overlay ⟨["a"]⟩).Pairwise fun a b => a.lt b = true := by
  intro t
  have ordered : t.Ordered := by unfold Ordered; decide
  exact ⟨ordered, by decide, Ordered.rangeFilesBelow_eq ordered _⟩

end Monorepo.StagedTree
