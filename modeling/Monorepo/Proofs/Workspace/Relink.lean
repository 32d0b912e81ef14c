import Monorepo.Workspace.Reference
import Monorepo.Proofs.Path.Relative

/-! Relative references across a move. A relative text in a file names a target from the file's
directory. When only the target moves, the text is rewritten to name the target's new place from
the same directory; when only the file moves, to name the same target from the file's new
directory. Either way the new text is the way between the two paths, which reads back as the
target. When both move the text is left as written: it still names the target's new place when,
read below the old root, it never climbs out of it, and a text that climbs out and back in again
names a place the move left behind. -/

namespace Monorepo.Workspace

open Monorepo.Path Text Script

theorem trimTrailingSlashes_of_getLast {s : String} (last : ∀ c ∈ s.toList.getLast?, c ≠ '/') :
    trimTrailingSlashes s = s := by
  have kept : s.toList.reverse.dropWhile (· == '/') = s.toList.reverse := by
    cases spelled : s.toList.reverse with
    | nil => rfl
    | cons c cs =>
      have notSlash : c ≠ '/' := last c (by rw [← List.head?_reverse, spelled]; rfl)
      simp [notSlash]
  simp [trimTrailingSlashes, kept]

theorem asRelative_cases (r : String) :
    (r = "." ∧ Specifier.asRelative r = "./") ∨ Specifier.asRelative r = r ∨
      Specifier.asRelative r = "./" ++ r := by
  unfold Specifier.asRelative
  split
  · rename_i dot
    exact .inl ⟨by simpa using dot, rfl⟩
  · split
    · exact .inr (.inl rfl)
    · exact .inr (.inr rfl)

theorem join_here (base : Path) {trailing : String} (slash : trailing = "" ∨ trailing = "/") :
    base.join (trimTrailingSlashes "./" ++ trailing) = .ok base := by
  have written : trimTrailingSlashes "./" = "/".intercalate ["."] := by decide
  rw [written]
  refine join_way (by simp) (by simp [WayPiece]) (fun _ => ?_) slash
  rw [applySegments_cons, applyPiece_dot]
  rfl

theorem join_written (base p : Path) (plain : p.Plain) {trailing : String}
    (slash : trailing = "" ∨ trailing = "/") :
    base.join (trimTrailingSlashes (Specifier.asRelative (p.relativeTo base)) ++ trailing) =
      .ok p := by
  have way : ∀ s ∈ wayPieces base p, WayPiece s :=
    WayPiece.of_climb fun s member => plain s (List.mem_of_mem_drop member)
  have reached : ∀ original, applySegments original base.segments (wayPieces base p) =
      .ok p.segments := fun _ => applySegments_way base p plain.wellFormed
  rw [relativeTo_eq_way]
  split
  · rename_i none
    have same : p = base := by
      have stays := reached ""
      rw [List.isEmpty_iff.mp none] at stays
      exact (eq_of_segments (Except.ok.inj stays)).symm
    subst same
    exact join_here p slash
  · rename_i some
    have nonempty : wayPieces base p ≠ [] := by simpa using some
    have readsBack : base.join ("/".intercalate (wayPieces base p)) = .ok p := by
      simpa using join_way nonempty way reached (Or.inl rfl)
    have unslashed : trimTrailingSlashes ("/".intercalate (wayPieces base p)) =
        "/".intercalate (wayPieces base p) :=
      trimTrailingSlashes_of_getLast fun c member =>
        ((intercalate_head_last nonempty way).2 c member).1
    rcases asRelative_cases ("/".intercalate (wayPieces base p)) with ⟨dot, written⟩ | written |
      written
    · have same : p = base := by
        have here := join_here base (Or.inl rfl)
        rw [String.append_empty, show trimTrailingSlashes "./" = "." by decide, ← dot,
          readsBack] at here
        exact Except.ok.inj here
      rw [written, same]
      exact join_here base slash
    · rw [written, unslashed]
      exact join_way nonempty way reached slash
    · have dotted : "./" ++ "/".intercalate (wayPieces base p) =
          "/".intercalate ("." :: wayPieces base p) := by
        rw [String.intercalate_cons_of_ne_nil nonempty, String.append_assoc]
        rfl
      have dottedWay : ∀ s ∈ "." :: wayPieces base p, WayPiece s := by
        simpa [WayPiece] using way
      rw [written, dotted, trimTrailingSlashes_of_getLast fun c member =>
        ((intercalate_head_last (List.cons_ne_nil _ _) dottedWay).2 c member).1]
      refine join_way (List.cons_ne_nil _ _) dottedWay (fun original => ?_) slash
      rw [applySegments_cons, applyPiece_dot, except_ok_bind, reached]

namespace Move

theorem relocate_eq_some {m : Move} {p q : Path} (relocated : m.relocate p = some q) :
    m.contains p = true ∧ ∃ rest : Path, p = m.oldRoot.append rest ∧ q = m.newRoot.append rest := by
  unfold relocate at relocated
  split at relocated
  · rename_i inside
    unfold Path.stripPrefix at relocated
    split at relocated
    · rename_i below
      simp only [Option.map_some, Option.some.injEq] at relocated
      refine ⟨inside, ⟨p.segments.drop m.oldRoot.segments.length⟩, ?_, relocated.symm⟩
      obtain ⟨rest, spelled⟩ := List.isPrefixOf_iff_prefix.mp below
      apply eq_of_segments
      simp [Path.append, ← spelled]
    · cases relocated
  · cases relocated

end Move

namespace ReferenceIndex

variable {ix : ReferenceIndex} {m : Move}

theorem movesWith_of_relocateModule {p q : Path} (moved : ix.relocateModule m p = some q) :
    ix.movesWith m p = true := by
  unfold movesWith
  unfold relocateModule at moved
  cases relocated : m.relocate p with
  | some q' => simp [(Move.relocate_eq_some relocated).1]
  | none =>
    rw [relocated] at moved
    simp only at moved
    split at moved
    · cases moved
    · obtain ⟨found, hit, -⟩ := Option.bind_eq_some_iff.mp moved
      obtain ⟨ext, member, landed⟩ := List.exists_of_findSome?_eq_some hit
      obtain ⟨candidate, named, relocatedCandidate⟩ := Option.bind_eq_some_iff.mp landed
      refine Bool.or_eq_true_iff.mpr (.inr (List.any_eq_true.mpr ⟨ext, member, ?_⟩))
      rw [named]
      exact (Move.relocate_eq_some relocatedCandidate).1

theorem getD_changed (new value : String) :
    (if new != value then some new else none).getD value = new := by
  by_cases same : new = value <;> simp [same]

theorem slash_or_empty (c : Prop) [Decidable c] :
    (if c then "/" else "") = "" ∨ (if c then "/" else "") = "/" := by
  split
  · exact .inr rfl
  · exact .inl rfl

section
variable {file dir target : Path} {value : String}

theorem rewriteRelative_of_neither (parentDir : file.parent = some dir)
    (resolves : dir.join value = .ok target) (stays : m.contains file = false)
    (still : ix.movesWith m target = false) :
    ix.rewriteRelative file value m (m.contains file) = none := by
  simp only [rewriteRelative, parentDir, resolves, Except.toOption, stays, still,
    Option.bind_eq_bind, Option.bind_some, Option.bind_none]

theorem rewriteRelative_of_both (parentDir : file.parent = some dir)
    (resolves : dir.join value = .ok target) (moving : m.contains file = true)
    (moves : ix.movesWith m target = true) :
    ix.rewriteRelative file value m (m.contains file) = none := by
  simp only [rewriteRelative, parentDir, resolves, Except.toOption, moving, moves,
    Option.bind_eq_bind, Option.bind_some, Option.bind_none]

end

/-- How a relative text `value` in `file`, which names `target` from the file's directory `dir`,
fares in a move. When neither end moves the text stays. When only the target moves, the text then
held names the target's new place from `dir`; when only the file moves, it names the same target
from the file's new directory. When both move the text stays as written, and it names the
target's new place from the file's new directory when, read below the old root, it stays inside
it. -/
structure Relinks (ix : ReferenceIndex) (m : Move) (file dir : Path) (value : String)
    (target : Path) : Prop where
  neither : m.contains file = false → ix.movesWith m target = false →
    ix.rewriteRelative file value m (m.contains file) = none
  targetMoves : m.contains file = false → ∀ moved, ix.relocateModule m target = some moved →
    moved.Plain →
    dir.join ((ix.rewriteRelative file value m (m.contains file)).getD value) = .ok moved
  fileMoves : ∀ movedFile newDir, m.relocate file = some movedFile →
    movedFile.parent = some newDir → ix.movesWith m target = false → target.Plain →
    newDir.join ((ix.rewriteRelative file value m (m.contains file)).getD value) = .ok target
  bothMove : ∀ movedFile moved, m.relocate file = some movedFile →
    m.relocate target = some moved →
    ix.rewriteRelative file value m (m.contains file) = none ∧
    ∀ below inner, dir = m.oldRoot.append below → below.join value = .ok inner →
      ∃ newDir, movedFile.parent = some newDir ∧ newDir.join value = .ok moved

/-- Every relative text that names a target from its file's directory fares in a move as
`Relinks` says. -/
theorem rewriteRelative_relinks {file dir target : Path} {value : String}
    (parentDir : file.parent = some dir) (resolves : dir.join value = .ok target) :
    Relinks ix m file dir value target where
  neither stays still := rewriteRelative_of_neither parentDir resolves stays still
  targetMoves stays moved landed plain := by
    simp only [rewriteRelative, parentDir, resolves, Except.toOption, stays,
      movesWith_of_relocateModule landed, landed, Option.bind_eq_bind, Option.bind_some,
      Option.map_some]
    rw [getD_changed]
    exact join_written dir moved plain (slash_or_empty _)
  fileMoves movedFile newDir landed parent still plain := by
    simp only [rewriteRelative, parentDir, resolves, Except.toOption,
      (Move.relocate_eq_some landed).1, still, landed, parent, Option.bind_eq_bind,
      Option.bind_some, Option.map_some]
    rw [getD_changed]
    exact join_written newDir target plain (slash_or_empty _)
  bothMove movedFile moved fileLanded targetLanded := by
    obtain ⟨fileInside, rest, rfl, rfl⟩ := Move.relocate_eq_some fileLanded
    obtain ⟨targetInside, rest', targetSpelled, rfl⟩ := Move.relocate_eq_some targetLanded
    have moves : ix.movesWith m target = true := by
      simp [movesWith, targetInside]
    refine ⟨rewriteRelative_of_both parentDir resolves fileInside moves,
      fun below inner spelled reads => ?_⟩
    have reached := join_append m.oldRoot reads
    rw [← spelled, resolves, targetSpelled] at reached
    have same : rest' = inner := by
      have segments := congrArg Path.segments (Except.ok.inj reached)
      exact eq_of_segments (List.append_cancel_left segments)
    subst same
    rw [spelled] at parentDir
    exact ⟨m.newRoot.append below, parent_append_of_parent parentDir, join_append m.newRoot reads⟩

/-- A text that climbs out of the moving project and back in is kept as written: `../../ui/src/b`
in `libs/ui/src/a.ts`, when `libs/ui` moves to `packages/web-ui`, names `packages/ui/src/b` from
the file's new directory, while its target moved to `packages/web-ui/src/b`. -/
theorem climbing_text_misses_moved_target :
    ReferenceIndex.rewriteRelative { registry := {}, workspace := {}, mappings := {}, config := {} }
        ⟨["libs", "ui", "src", "a.ts"]⟩ "../../ui/src/b"
          { oldName := "ui", newName := "ui", oldRoot := ⟨["libs", "ui"]⟩,
            newRoot := ⟨["packages", "web-ui"]⟩, entries := [⟨["libs", "ui"]⟩], excluded := [],
            outputDir := "dist" } true = none ∧
      Move.relocate
          { oldName := "ui", newName := "ui", oldRoot := ⟨["libs", "ui"]⟩,
            newRoot := ⟨["packages", "web-ui"]⟩, entries := [⟨["libs", "ui"]⟩], excluded := [],
            outputDir := "dist" }
          ⟨["libs", "ui", "src", "a.ts"]⟩ = some ⟨["packages", "web-ui", "src", "a.ts"]⟩ ∧
      Move.relocate
          { oldName := "ui", newName := "ui", oldRoot := ⟨["libs", "ui"]⟩,
            newRoot := ⟨["packages", "web-ui"]⟩, entries := [⟨["libs", "ui"]⟩], excluded := [],
            outputDir := "dist" }
          ⟨["libs", "ui", "src", "b"]⟩ = some ⟨["packages", "web-ui", "src", "b"]⟩ ∧
      (⟨["packages", "web-ui", "src"]⟩ : Path).join "../../ui/src/b" =
        .ok ⟨["packages", "ui", "src", "b"]⟩ := by
  have spelled :
      "../../ui/src/b" = "/".intercalate (List.replicate 2 ".." ++ ["ui", "src", "b"]) := by
    decide
  have resolves : (⟨["libs", "ui", "src"]⟩ : Path).join "../../ui/src/b" =
      .ok ⟨["libs", "ui", "src", "b"]⟩ := by
    rw [spelled]
    exact join_climb (by decide) (by simp) (by decide)
  refine ⟨rewriteRelative_of_both (by decide) resolves (by decide) (by decide), by decide,
    by decide, ?_⟩
  rw [spelled]
  exact join_climb (by decide) (by simp) (by decide)

end ReferenceIndex

end Monorepo.Workspace
