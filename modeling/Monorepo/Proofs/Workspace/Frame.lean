import Mathlib
import Monorepo.Proofs.Workspace.Atomicity
import Monorepo.Proofs.Workspace.Plan
import Monorepo.Proofs.Workspace.Relink
import Monorepo.Proofs.Tree.Refinement

/-! What a relocation does to the live view. Rewriting the references changes the bytes of their
files and nothing else; the files of the move then go one by one to their places below the new
root, each taking its bytes along; last the project's manifest is written where it landed. So
the view afterwards is the view before with the references applied and the files moved, apart
from the rewritten manifest. -/

namespace Monorepo.StagedTree

open Utf8

variable {t : StagedTree}

/-- `t'` differs from `t` at most in the bytes of files of `sources`: it holds the same live
paths, with the same bytes off `sources`. -/
structure EditsOnly (sources : List Path) (t t' : StagedTree) : Prop where
  outside : ∀ p, p ∉ sources → t'.view p = t.view p
  live : ∀ p, (t'.view p).isSome ↔ (t.view p).isSome

theorem EditsOnly.refl (sources : List Path) (t : StagedTree) : EditsOnly sources t t :=
  ⟨fun _ _ => rfl, fun _ => Iff.rfl⟩

theorem EditsOnly.trans {sources : List Path} {t₁ t₂ t₃ : StagedTree}
    (first : EditsOnly sources t₁ t₂) (second : EditsOnly sources t₂ t₃) :
    EditsOnly sources t₁ t₃ :=
  ⟨fun p outside => (second.outside p outside).trans (first.outside p outside),
    fun p => (second.live p).trans (first.live p)⟩

theorem Consistent.editsOnly_write (consistent : t.Consistent) {sources : List Path} {p : Path}
    {c : Bytes} {t' : StagedTree} (member : p ∈ sources) (live : (t.view p).isSome)
    (written : t.write p c = .ok t') : t'.Consistent ∧ EditsOnly sources t t' := by
  have view' := consistent.view_write written
  refine ⟨consistent.after_write (consistent.plain_of_live live).1 written,
    fun q outside => ?_, fun q => ?_⟩
  · rw [view', if_neg (by rintro rfl; exact outside member)]
  · rw [view']
    split
    · rename_i same
      simp [same, live]
    · rfl

theorem Consistent.live_of_read (consistent : t.Consistent) {p : Path} {b : Bytes}
    (read : t.read p = .ok b) : (t.view p).isSome := by
  cases found : t.view p with
  | some c => rfl
  | none =>
    rw [consistent.read_of_dead found] at read
    cases read

end Monorepo.StagedTree

namespace Monorepo.TreeStep

open StagedTree

/-- A step that, run on a consistent tree, succeeds only with a consistent tree that differs
from the first only in the bytes of files of `sources`. -/
def EditsWithin {α : Type} (sources : List Path) (step : TreeStep α) : Prop :=
  ∀ t u a, t.Consistent → step.runOn t = (.ok a, u) → u.Consistent ∧ EditsOnly sources t u

namespace EditsWithin

variable {α β : Type} {sources : List Path}

theorem pure (a : α) : EditsWithin sources (Pure.pure a : TreeStep α) := by
  intro t u b consistent run
  rw [runOn_pure, Prod.mk.injEq] at run
  obtain ⟨-, rfl⟩ := run
  exact ⟨consistent, EditsOnly.refl sources t⟩

theorem bind {x : TreeStep α} {f : α → TreeStep β} (first : EditsWithin sources x)
    (next : ∀ a, EditsWithin sources (f a)) : EditsWithin sources (x >>= f) := by
  intro t u b consistent run
  obtain ⟨a, t₁, ran, rest⟩ := runOn_bind_eq_ok run
  obtain ⟨consistent₁, edits₁⟩ := first t t₁ a consistent ran
  obtain ⟨consistent₂, edits₂⟩ := next a t₁ u b consistent₁ rest
  exact ⟨consistent₂, edits₁.trans edits₂⟩

theorem update {f : StagedTree → Outcome StagedTree}
    (writes : ∀ t u, t.Consistent → f t = .ok u →
      ∃ p ∈ sources, (t.view p).isSome ∧ ∃ c, t.write p c = .ok u) :
    EditsWithin sources (update f) := by
  intro t u _ consistent run
  obtain ⟨p, member, live, c, written⟩ := writes t u consistent (runOn_update_eq_ok.mp run)
  exact consistent.editsOnly_write member live written

theorem forIn {l : List α} {body : α → PUnit.{1} → TreeStep (ForInStep PUnit)}
    (each : ∀ x ∈ l, EditsWithin sources (body x PUnit.unit)) :
    EditsWithin sources (forIn l PUnit.unit body) := by
  induction l with
  | nil => exact pure _
  | cons x rest ih =>
    rw [List.forIn_cons]
    refine bind (each x (by simp)) fun r => ?_
    cases r with
    | done _ => exact pure _
    | yield _ => exact ih fun y member => each y (by simp [member])

end EditsWithin

end Monorepo.TreeStep

namespace Monorepo.Workspace

open StagedTree TreeStep Utf8

variable {t : StagedTree}

theorem readToString_live (consistent : t.Consistent) {p : Path} {s : String}
    (read : t.readToString p = .ok s) : (t.view p).isSome := by
  unfold readToString at read
  obtain ⟨b, readBytes, -⟩ := except_bind_eq_ok.mp read
  exact consistent.live_of_read readBytes

theorem readJson_live (consistent : t.Consistent) {p : Path} {v : Json.Value}
    (read : t.readJson p = .ok v) : (t.view p).isSome := by
  unfold readJson at read
  obtain ⟨s, readText, -⟩ := except_bind_eq_ok.mp read
  exact readToString_live consistent readText

theorem applySpanEdits_writes (consistent : t.Consistent) {file : Path} {refs : List Reference}
    {u : StagedTree} (edited : applySpanEdits t file refs = .ok u) :
    (t.view file).isSome ∧ ∃ c, t.write file c = .ok u := by
  unfold applySpanEdits at edited
  obtain ⟨content, read, edited⟩ := except_bind_eq_ok.mp edited
  obtain ⟨bytes, -, written⟩ := except_bind_eq_ok.mp edited
  exact ⟨readToString_live consistent read, bytes, written⟩

theorem applyJsonEdits_writes (consistent : t.Consistent) {file : Path} {refs : List Reference}
    {u : StagedTree} (edited : applyJsonEdits t file refs = .ok u) :
    (t.view file).isSome ∧ ∃ c, t.write file c = .ok u := by
  unfold applyJsonEdits at edited
  obtain ⟨document, read, written⟩ := except_bind_eq_ok.mp edited
  exact ⟨readJson_live consistent read, _, written⟩

theorem applyFileReferences_editsWithin (refs : List Reference) {file : Path} {sources : List Path}
    (member : file ∈ sources) : EditsWithin sources (applyFileReferences refs file) := by
  unfold applyFileReferences
  dsimp only
  have spans : ∀ rs, EditsWithin sources (update fun t => applySpanEdits t file rs) := fun rs =>
    .update fun t u consistent edited =>
      ⟨file, member, applySpanEdits_writes consistent edited⟩
  have json : ∀ rs, EditsWithin sources (update fun t => applyJsonEdits t file rs) := fun rs =>
    .update fun t u consistent edited =>
      ⟨file, member, applyJsonEdits_writes consistent edited⟩
  split
  · refine .bind (spans _) fun _ => ?_
    split
    · exact json _
    · exact .pure _
  · split
    · exact json _
    · exact .pure _

theorem applyReferences_editsWithin (refs : List Reference) :
    EditsWithin (refs.map (·.sourceFile)) (applyReferences refs) := by
  unfold applyReferences
  refine .bind (.forIn fun file listed => ?_) fun _ => .pure _
  have member : file ∈ refs.map (·.sourceFile) := by
    simpa [List.mem_mergeSort] using List.mem_eraseDups.mp listed
  exact .bind (applyFileReferences_editsWithin refs member) fun _ => .pure _

/-- The live view `V` once every file of `files` has moved to its place under the plan, bytes and
all: where a file lands stand its bytes, a file that left is gone, and every other path keeps
what it held. -/
def Move.movedView (mv : Move) (files : List Path) (V : Path → Option Bytes) (q : Path) :
    Option Bytes :=
  match files.find? fun f => mv.relocate f == some q with
  | some f => V f
  | none => if q ∈ files then none else V q

namespace Move

variable {mv : Move} {files : List Path} {V : Path → Option Bytes}

theorem relocate_inj {a b g : Path} (ofA : mv.relocate a = some g) (ofB : mv.relocate b = some g) :
    a = b := by
  obtain ⟨-, restA, rfl, landA⟩ := relocate_eq_some ofA
  obtain ⟨-, restB, rfl, landB⟩ := relocate_eq_some ofB
  have segments := congrArg Path.segments (landA.symm.trans landB)
  simp only [Path.append, List.append_cancel_left_eq] at segments
  rw [Path.eq_of_segments segments]

theorem movedView_of_relocate {f q : Path} (member : f ∈ files) (lands : mv.relocate f = some q) :
    mv.movedView files V q = V f := by
  unfold movedView
  split
  · rename_i f' found
    have landsToo : mv.relocate f' = some q := by simpa using List.find?_some found
    rw [relocate_inj landsToo lands]
  · rename_i missing
    have unmatched := List.find?_eq_none.mp missing f member
    simp [lands] at unmatched

theorem movedView_of_unreached {q : Path} (unreached : ∀ f ∈ files, mv.relocate f ≠ some q) :
    mv.movedView files V q = if q ∈ files then none else V q := by
  unfold movedView
  split
  · rename_i f found
    exact absurd (by simpa using List.find?_some found)
      (unreached f (List.mem_of_find?_eq_some found))
  · rfl

theorem movedView_cons {f g : Path} {rest : List Path} (lands : mv.relocate f = some g)
    (fresh : g ∉ f :: rest) (once : f ∉ rest) :
    mv.movedView (f :: rest) V =
      mv.movedView rest fun q => if q = g then V f else if q = f then none else V q := by
  funext q
  have notG : ∀ f' ∈ rest, f' ≠ g := fun f' member same => fresh (by simp [← same, member])
  have notF : ∀ f' ∈ rest, f' ≠ f := fun f' member same => once (same ▸ member)
  by_cases atG : q = g
  · subst atG
    rw [movedView_of_relocate (by simp) lands, movedView_of_unreached fun f' member landsToo =>
      notF f' member (relocate_inj landsToo lands)]
    have notInRest : q ∉ rest := fun inRest => notG q inRest rfl
    simp [notInRest]
  by_cases reached : ∃ f' ∈ rest, mv.relocate f' = some q
  · obtain ⟨f', member, landsToo⟩ := reached
    rw [movedView_of_relocate (by simp [member]) landsToo, movedView_of_relocate member landsToo,
      if_neg (notG f' member), if_neg (notF f' member)]
  · have unreached : ∀ f' ∈ rest, mv.relocate f' ≠ some q := fun f' member landsToo =>
      reached ⟨f', member, landsToo⟩
    rw [movedView_of_unreached (by
        rintro f' (_ | ⟨_, member⟩)
        · rw [lands]
          exact fun same => atG (Option.some.inj same).symm
        · exact unreached f' member),
      movedView_of_unreached unreached, if_neg atG]
    by_cases atF : q = f
    · simp [atF]
    · simp [atF]

theorem relocate_of_contains {f : Path}
    (below : ∀ e ∈ mv.entries, e.startsWith mv.oldRoot = true) (moving : mv.contains f = true) :
    ∃ rest : Path, f = mv.oldRoot.append rest ∧ mv.relocate f = some (mv.newRoot.append rest) := by
  have inEntry : ∃ e ∈ mv.entries, f.startsWith e = true := by
    simp only [contains, Bool.and_eq_true, List.any_eq_true] at moving
    exact moving.1
  obtain ⟨e, entry, under⟩ := inEntry
  obtain ⟨rest, spelled⟩ :=
    (Path.startsWith_iff.mp (below e entry)).trans (Path.startsWith_iff.mp under)
  refine ⟨⟨rest⟩, Path.eq_of_segments spelled.symm, ?_⟩
  have startsWith : f.startsWith mv.oldRoot = true := Path.startsWith_iff.mpr ⟨rest, spelled⟩
  simp [relocate, moving, Path.stripPrefix, startsWith, ← spelled, Path.append]

theorem movedView_of_stays (stays : mv.oldRoot = mv.newRoot)
    (below : ∀ e ∈ mv.entries, e.startsWith mv.oldRoot = true)
    (moving : ∀ f ∈ files, mv.contains f = true) : mv.movedView files V = V := by
  have fixed : ∀ f ∈ files, mv.relocate f = some f := fun f member => by
    obtain ⟨rest, spelled, lands⟩ := relocate_of_contains below (moving f member)
    rw [lands, ← stays, ← spelled]
  funext q
  by_cases reached : ∃ f ∈ files, mv.relocate f = some q
  · obtain ⟨f, member, lands⟩ := reached
    rw [movedView_of_relocate member lands]
    rw [fixed f member, Option.some.injEq] at lands
    rw [lands]
  · have unreached : ∀ f ∈ files, mv.relocate f ≠ some q := fun f member lands =>
      reached ⟨f, member, lands⟩
    rw [movedView_of_unreached unreached, if_neg fun member => unreached q member (fixed q member)]

end Move

theorem moveFiles_cons (mv : Move) (f : Path) (rest : List Path) :
    moveFiles mv (f :: rest) = (do
      match mv.relocate f with
      | some g => StagedTree.rename f g
      | none => pure ()
      moveFiles mv rest) := by
  unfold moveFiles
  cases relocated : mv.relocate f <;> simp [List.forIn_cons, relocated]

/-- Moving files that are live, each once, to places where no file of the move starts, carries
each file's bytes to its place on a layered tree. The induction is on the files: after the first
has moved, the rest are live as they were and the view is the one `movedView_cons` describes. -/
theorem moveFiles_view {u u' : StagedTree} (layered : u.Layered) {mv : Move} {files : List Path}
    (nodup : files.Nodup) (live : ∀ f ∈ files, (u.view f).isSome)
    (lands : ∀ f ∈ files, ∃ g, mv.relocate f = some g ∧ g ∉ files)
    (moved : (moveFiles mv files).runOn u = (.ok (), u')) :
    u'.Layered ∧ ∀ q, u'.view q = mv.movedView files u.view q := by
  induction files generalizing u with
  | nil =>
    rw [moveFiles, List.forIn_nil, pure_bind, runOn_pure, Prod.mk.injEq] at moved
    obtain ⟨-, rfl⟩ := moved
    exact ⟨layered, fun q => by simp [Move.movedView]⟩
  | cons f rest ih =>
    obtain ⟨g, relocated, fresh⟩ := lands f (by simp)
    rw [moveFiles_cons, relocated] at moved
    obtain ⟨_, u₁, renamed, moved⟩ := runOn_bind_eq_ok moved
    obtain ⟨c, found⟩ := Option.isSome_iff_exists.mp (live f (by simp))
    have other : f ≠ g := fun same => fresh (by simp [same])
    obtain ⟨layered₁, view₁⟩ := layered.rename_file found other renamed
    obtain ⟨once, nodupRest⟩ := List.nodup_cons.mp nodup
    have liveRest : ∀ f' ∈ rest, (u₁.view f').isSome := fun f' member => by
      have notG : f' ≠ g := fun same => fresh (by simp [← same, member])
      have notF : f' ≠ f := fun same => once (same ▸ member)
      rw [view₁, if_neg notG, if_neg notF]
      exact live f' (by simp [member])
    have landsRest : ∀ f' ∈ rest, ∃ g', mv.relocate f' = some g' ∧ g' ∉ rest := fun f' member => by
      obtain ⟨g', relocated', fresh'⟩ := lands f' (by simp [member])
      exact ⟨g', relocated', fun inRest => fresh' (by simp [inRest])⟩
    obtain ⟨layered', view'⟩ := ih layered₁ nodupRest liveRest landsRest moved
    refine ⟨layered', fun q => ?_⟩
    rw [view' q, Move.movedView_cons relocated fresh once]
    congr 1
    funext p
    rw [view₁ p, found]

theorem Manifest.write_eq_ok {m : Manifest} {settings : Config.WorkspaceSettings}
    {u u' : StagedTree} (written : m.write u settings = .ok u') :
    ∃ p c, m.path settings = .ok p ∧ u.write p c = .ok u' := by
  unfold Manifest.write at written
  obtain ⟨p, located, written⟩ := except_bind_eq_ok.mp written
  dsimp only at written
  split at written
  · exact ⟨p, _, located, written⟩
  · obtain ⟨document, -, written⟩ := except_bind_eq_ok.mp written
    exact ⟨p, _, located, written⟩

theorem Move.relocate_child {mv : Move} {n : String} {g : Path}
    (lands : mv.relocate (mv.oldRoot.child n) = some g) : g = mv.newRoot.child n := by
  obtain ⟨-, rest, spelled, rfl⟩ := Move.relocate_eq_some lands
  have named : rest.segments = [n] := by
    simpa [Path.append] using (congrArg Path.segments spelled).symm
  exact Path.eq_of_segments (by simp [Path.append, named])

theorem rewriteMovedManifest_eq_ok {u u' : StagedTree} {settings : Config.WorkspaceSettings}
    {mv : Move} (plain : Path.PlainSegment settings.manifestFile)
    (rewritten : (rewriteMovedManifest settings mv (mv.oldRoot.child settings.manifestFile)).runOn u =
      (.ok (), u')) :
    mv.relocate (mv.oldRoot.child settings.manifestFile) = some (mv.newRoot.child settings.manifestFile) ∧
      ∃ manifest, Manifest.read u mv.newRoot settings = .ok manifest ∧
        (rewriteOwnManifest manifest mv).path settings = .ok (mv.newRoot.child settings.manifestFile) ∧
        (rewriteOwnManifest manifest mv).write u settings = .ok u' := by
  unfold rewriteMovedManifest at rewritten
  split at rewritten
  · rename_i M lands
    obtain rfl := Move.relocate_child lands
    split at rewritten
    · rename_i dir parentIs
      rw [Path.parent_child, Option.some.injEq] at parentIs
      subst parentIs
      obtain ⟨manifest, _, queried, rewritten⟩ := runOn_bind_eq_ok rewritten
      obtain ⟨read, rfl⟩ := runOn_query_eq_ok.mp queried
      have written := runOn_update_eq_ok.mp rewritten
      have rooted : (rewriteOwnManifest manifest mv).root = mv.newRoot := rfl
      refine ⟨lands, manifest, read, ?_, written⟩
      rw [Manifest.path, Manifest.pathIn, rooted, Path.join_plain plain]
    · simp at rewritten
  · simp at rewritten

theorem rewriteMovedManifest_view {u u' : StagedTree} (layered : u.Layered)
    {settings : Config.WorkspaceSettings} {mv : Move} (plain : Path.PlainSegment settings.manifestFile)
    (rewritten : (rewriteMovedManifest settings mv (mv.oldRoot.child settings.manifestFile)).runOn u =
      (.ok (), u')) :
    ∃ c, ∀ q, u'.view q = if q = mv.newRoot.child settings.manifestFile then some c else u.view q := by
  obtain ⟨-, manifest, -, located, written⟩ := rewriteMovedManifest_eq_ok plain rewritten
  obtain ⟨p, c, located', writtenAt⟩ := Manifest.write_eq_ok written
  rw [located, Except.ok.injEq] at located'
  subst located'
  exact ⟨c, layered.view_write writtenAt⟩

/-- A successful execution of a plan rewrites the references, lists the files of the move unless
the root stays, moves them, and rewrites the manifest; it reports how many files it moved and
the references it rewrote. -/
theorem executeRelocation_eq_ok {settings : Config.WorkspaceSettings} {plan : RelocationPlan}
    {t' : StagedTree} {report : RelocationReport}
    (run : (executeRelocation settings plan).runOn t = (.ok report, t')) :
    ∃ edited files moved, (applyReferences plan.references).runOn t = (.ok (), edited) ∧
      (if plan.move.oldRoot = plan.move.newRoot then files = [] else plan.move.files edited = .ok files) ∧
      (moveFiles plan.move files).runOn edited = (.ok (), moved) ∧
      (rewriteMovedManifest settings plan.move plan.manifestPath).runOn moved = (.ok (), t') ∧
      report.filesMoved = files.length ∧ report.references = plan.references := by
  unfold executeRelocation at run
  obtain ⟨_, edited, applied, run⟩ := runOn_bind_eq_ok run
  dsimp only at run
  split at run
  · rename_i stays
    rw [runOn_bind_ok (runOn_pure _ _)] at run
    obtain ⟨_, moved, movedRun, run⟩ := runOn_bind_eq_ok run
    obtain ⟨_, _, rewritten, run⟩ := runOn_bind_eq_ok run
    rw [runOn_pure, Prod.mk.injEq, Except.ok.injEq] at run
    obtain ⟨rfl, rfl⟩ := run
    exact ⟨edited, [], moved, applied, by simp [beq_iff_eq.mp stays], movedRun, rewritten, rfl, rfl⟩
  · rename_i moves
    obtain ⟨files, _, listed, run⟩ := runOn_bind_eq_ok run
    obtain ⟨listedOk, rfl⟩ := runOn_query_eq_ok.mp listed
    obtain ⟨_, moved, movedRun, run⟩ := runOn_bind_eq_ok run
    obtain ⟨_, _, rewritten, run⟩ := runOn_bind_eq_ok run
    rw [runOn_pure, Prod.mk.injEq, Except.ok.injEq] at run
    obtain ⟨rfl, rfl⟩ := run
    exact ⟨edited, files, moved, applied, by rw [if_neg (by simpa using moves)]; exact listedOk,
      movedRun, rewritten, rfl, rfl⟩

/-- Moving the files of a move, unless the root stays, and then rewriting its manifest: the files
land where nothing lived, since the destination held nothing, and the manifest is read where it
landed and written back as the move rewrites it. -/
theorem moveAndRewrite_view {edited moved t' : StagedTree} (consistent : edited.Consistent)
    {settings : Config.WorkspaceSettings} {mv : Move} {files listed : List Path}
    (nodup : files.Nodup) (members : ∀ f, f ∈ files ↔ (edited.view f).isSome ∧ mv.contains f = true)
    (below : ∀ e ∈ mv.entries, e.startsWith mv.oldRoot = true)
    (fresh : mv.newRoot ≠ mv.oldRoot →
      ∀ q, (edited.view q).isSome → ¬mv.newRoot.segments <+: q.segments)
    (listing : listed = if mv.oldRoot = mv.newRoot then [] else files)
    (plain : Path.PlainSegment settings.manifestFile)
    (movedRun : (moveFiles mv listed).runOn edited = (.ok (), moved))
    (rewritten : (rewriteMovedManifest settings mv (mv.oldRoot.child settings.manifestFile)).runOn
      moved = (.ok (), t')) :
    mv.relocate (mv.oldRoot.child settings.manifestFile) = some (mv.newRoot.child settings.manifestFile) ∧
      moved.Layered ∧ (∀ q, moved.view q = mv.movedView files edited.view q) ∧
      (∀ q, mv.relocate (mv.oldRoot.child settings.manifestFile) ≠ some q →
        t'.view q = mv.movedView files edited.view q) ∧
      ∃ manifest, Manifest.read moved mv.newRoot settings = .ok manifest ∧
        (rewriteOwnManifest manifest mv).path settings = .ok (mv.newRoot.child settings.manifestFile) ∧
        (rewriteOwnManifest manifest mv).write moved settings = .ok t' := by
  have movedView : moved.Layered ∧ ∀ q, moved.view q = mv.movedView files edited.view q := by
    by_cases stays : mv.oldRoot = mv.newRoot
    · rw [if_pos stays] at listing
      subst listing
      rw [moveFiles, List.forIn_nil, pure_bind, runOn_pure, Prod.mk.injEq] at movedRun
      obtain ⟨-, rfl⟩ := movedRun
      refine ⟨consistent.toLayered, fun q => ?_⟩
      rw [Move.movedView_of_stays stays below fun f member => ((members f).mp member).2]
    · rw [if_neg stays] at listing
      subst listing
      refine moveFiles_view consistent.toLayered nodup (fun f member => ((members f).mp member).1)
        (fun f member => ?_) movedRun
      obtain ⟨rest, -, lands⟩ := Move.relocate_of_contains below ((members f).mp member).2
      exact ⟨_, lands, fun landed =>
        fresh (Ne.symm stays) _ ((members _).mp landed).1 (List.prefix_append _ _)⟩
  obtain ⟨layered, view⟩ := movedView
  obtain ⟨lands, written⟩ := rewriteMovedManifest_eq_ok plain rewritten
  obtain ⟨c, view'⟩ := rewriteMovedManifest_view layered plain rewritten
  refine ⟨lands, layered, view, fun q elsewhere => ?_, written⟩
  rw [view' q, if_neg (fun same => elsewhere (by rw [same]; exact lands)), view q]

/-- What a relocation does to the live view, step by step through its plan `mv`: `t` is the tree
before, `edited` the tree once the references are rewritten in `sources`, and `t'` the tree
after; `files` are the files of the move and `manifestPath` the project's manifest. -/
structure MovesExactly (settings : Config.WorkspaceSettings) (mv : Move) (sources : List Path)
    (manifestPath : Path) (t edited t' : StagedTree) (files : List Path) : Prop where
  /-- Rewriting references changes bytes of their files only; no file appears or goes. -/
  edits : ∀ p, p ∉ sources → edited.view p = t.view p
  keepsLive : ∀ p, (edited.view p).isSome ↔ (t.view p).isSome
  /-- The files of the move, each once: the live files that move with the project. -/
  listed : mv.files edited = .ok files
  nodup : files.Nodup
  mem_files : ∀ f, f ∈ files ↔ (t.view f).isSome ∧ mv.contains f = true
  lands : ∀ f ∈ files, (mv.relocate f).isSome
  manifest : manifestPath ∈ files
  /-- Away from where the manifest lands, the view is the edited one with the files moved. -/
  view : ∀ q, mv.relocate manifestPath ≠ some q → t'.view q = mv.movedView files edited.view q
  /-- Once the files moved, the manifest is read where it landed and written back there as the
  move rewrites it, and that write gives the tree afterwards. -/
  manifestWritten : ∀ m, mv.relocate manifestPath = some m → ∃ moved manifest, moved.Layered ∧
    (∀ q, moved.view q = mv.movedView files edited.view q) ∧
    Manifest.read moved mv.newRoot settings = .ok manifest ∧
    (rewriteOwnManifest manifest mv).path settings = .ok m ∧
    (rewriteOwnManifest manifest mv).write moved settings = .ok t'

namespace MovesExactly

variable {settings : Config.WorkspaceSettings} {mv : Move} {sources : List Path}
  {manifestPath : Path} {edited t' : StagedTree} {files : List Path}

theorem manifestLive (moves : MovesExactly settings mv sources manifestPath t edited t' files) :
    ∀ m, mv.relocate manifestPath = some m → (t'.view m).isSome := by
  intro m lands
  obtain ⟨moved, manifest, layered, -, -, located, written⟩ := moves.manifestWritten m lands
  obtain ⟨p, c, located', writtenAt⟩ := Manifest.write_eq_ok written
  rw [located, Except.ok.injEq] at located'
  subst located'
  simp [layered.view_write writtenAt]

theorem kept (moves : MovesExactly settings mv sources manifestPath t edited t' files) :
    ∀ p, (t.view p).isSome → p ∉ files → (t'.view p).isSome := by
  intro p live outside
  by_cases atManifest : mv.relocate manifestPath = some p
  · exact moves.manifestLive p atManifest
  rw [moves.view p atManifest]
  by_cases reached : ∃ f ∈ files, mv.relocate f = some p
  · obtain ⟨f, member, lands⟩ := reached
    rw [Move.movedView_of_relocate member lands, moves.keepsLive]
    exact ((moves.mem_files f).mp member).1
  · rw [Move.movedView_of_unreached (fun f member lands => reached ⟨f, member, lands⟩),
      if_neg outside, moves.keepsLive]
    exact live

theorem created (moves : MovesExactly settings mv sources manifestPath t edited t' files) :
    ∀ q, (t'.view q).isSome → (t.view q).isSome ∨ ∃ f ∈ files, mv.relocate f = some q := by
  intro q live
  by_cases atManifest : mv.relocate manifestPath = some q
  · exact .inr ⟨manifestPath, moves.manifest, atManifest⟩
  by_cases reached : ∃ f ∈ files, mv.relocate f = some q
  · exact .inr reached
  rw [moves.view q atManifest,
    Move.movedView_of_unreached (fun f member lands => reached ⟨f, member, lands⟩)] at live
  split at live
  · simp at live
  · exact .inl ((moves.keepsLive q).mp live)

theorem keepsBytes (moves : MovesExactly settings mv sources manifestPath t edited t' files) :
    ∀ f ∈ files, f ∉ sources → f ≠ manifestPath →
      ∀ g, mv.relocate f = some g → t'.view g = t.view f := by
  intro f member untouched notManifest g lands
  have elsewhere : mv.relocate manifestPath ≠ some g := fun landsToo =>
    notManifest (Move.relocate_inj lands landsToo)
  rw [moves.view g elsewhere, Move.movedView_of_relocate member lands, moves.edits f untouched]

end MovesExactly

/-- A relocation of `request` that took `t` to `t'` and reported `report` moved exactly the files
of its move and touched nothing else. Planning found the project and its plan (`Planned`); the
references it reports are rewritten in their files; the files of the move are the live files
that move with the project; the view afterwards is the edited view with those files moved, apart
from the manifest, read where it landed and written back there as the move rewrites it
(`MovesExactly`). The count of moved files is that of
the move, or none when the root stays. No live file outside the move disappears, every new path
is where a moved file landed, and a moved file untouched by references that is not the manifest
keeps its bytes. -/
def RelocatesExactly (config : Config.ToolConfig) (request : RelocateRequest) (t : StagedTree)
    (report : RelocationReport) (t' : StagedTree) : Prop :=
  ∃ r project plan edited files,
    Planned config request t r project plan ∧ report.references = plan.references ∧
    (applyReferences plan.references).runOn t = (.ok (), edited) ∧
    (∀ f, f ∈ files ↔ (t.view f).isSome ∧ MovesWith config.workspace r project.root f) ∧
    MovesExactly config.workspace plan.move (plan.references.map (·.sourceFile)) plan.manifestPath t
      edited t' files ∧
    report.filesMoved = (if plan.move.oldRoot = plan.move.newRoot then 0 else files.length) ∧
    (∀ p, (t.view p).isSome → p ∉ files → (t'.view p).isSome) ∧
    (∀ q, (t'.view q).isSome → (t.view q).isSome ∨ ∃ f ∈ files, plan.move.relocate f = some q) ∧
    ∀ f ∈ files, f ∉ plan.references.map (·.sourceFile) → f ≠ plan.manifestPath →
      ∀ g, plan.move.relocate f = some g → t'.view g = t.view f

theorem executeRelocation_movesExactly (consistent : t.Consistent) {config : Config.ToolConfig}
    {request : RelocateRequest} {r : Registry} {project : Manifest} {plan : RelocationPlan}
    (facts : Planned config request t r project plan) {report : RelocationReport} {t' : StagedTree}
    (run : (executeRelocation config.workspace plan).runOn t = (.ok report, t')) :
    ∃ edited files, (applyReferences plan.references).runOn t = (.ok (), edited) ∧
      MovesExactly config.workspace plan.move (plan.references.map (·.sourceFile))
        plan.manifestPath t edited t' files ∧
      report.references = plan.references ∧
      report.filesMoved = if plan.move.oldRoot = plan.move.newRoot then 0 else files.length := by
  obtain ⟨edited, listedFiles, moved, applied, listing, movedRun, rewritten, count, refs⟩ :=
    executeRelocation_eq_ok run
  obtain ⟨editedConsistent, edits⟩ :=
    applyReferences_editsWithin plan.references t edited () consistent applied
  obtain ⟨files, listed, nodup, members⟩ := Move.files_spec editedConsistent facts.plans.apart
  have plain : Path.PlainSegment config.workspace.manifestFile :=
    (consistent.plain_of_live facts.manifestLive).1 _ (by simp [facts.manifestPath])
  have manifestPath : plan.manifestPath = plan.move.oldRoot.child config.workspace.manifestFile := by
    rw [facts.manifestPath, facts.plans.oldRoot]
  have fresh : plan.move.newRoot ≠ plan.move.oldRoot →
      ∀ q, (edited.view q).isSome → ¬plan.move.newRoot.segments <+: q.segments := by
    intro moves q live above
    have held := consistent.contains_iff.mpr (.inr ⟨q, (edits.live q).mp live, above⟩)
    rw [facts.fresh moves] at held
    cases held
  have listing' : listedFiles = if plan.move.oldRoot = plan.move.newRoot then [] else files := by
    by_cases stays : plan.move.oldRoot = plan.move.newRoot
    · rw [if_pos stays] at listing ⊢
      exact listing
    · rw [if_neg stays] at listing ⊢
      rw [listing, Except.ok.injEq] at listed
      exact listed
  rw [manifestPath] at rewritten
  obtain ⟨landsManifest, layered, movedView, view, manifest, read, located, written⟩ :=
    moveAndRewrite_view editedConsistent nodup members facts.plans.entriesBelow fresh listing' plain
      movedRun rewritten
  have mem_files : ∀ f, f ∈ files ↔ (t.view f).isSome ∧ plan.move.contains f = true :=
    fun f => by rw [members, edits.live]
  refine ⟨edited, files, applied, ⟨edits.outside, edits.live, listed, nodup, mem_files,
    fun f member => ?_, ?_, manifestPath ▸ view, fun m lands => ?_⟩, refs, ?_⟩
  · obtain ⟨rest, -, lands⟩ :=
      Move.relocate_of_contains facts.plans.entriesBelow ((mem_files f).mp member).2
    simp [lands]
  · exact (mem_files _).mpr ⟨facts.manifestLive,
      manifestPath ▸ (Move.relocate_eq_some landsManifest).1⟩
  · rw [manifestPath, landsManifest, Option.some.injEq] at lands
    subst lands
    exact ⟨moved, manifest, layered, movedView, read, located, written⟩
  · rw [count, listing']
    split <;> rfl

/-- Every successful relocation on a consistent tree moves exactly the files of its move. -/
theorem relocate_moves_exactly {config : Config.ToolConfig} {request : RelocateRequest}
    {t' : StagedTree} {report : RelocationReport} (consistent : t.Consistent)
    (relocated : (relocate config request).runOn t = (.ok report, t')) :
    RelocatesExactly config request t report t' := by
  rw [runOn_relocate] at relocated
  cases planned : planRelocation config request t with
  | error e =>
    simp [planned] at relocated
  | ok plan =>
    simp only [planned] at relocated
    obtain ⟨r, project, facts⟩ := planRelocation_planned consistent planned
    obtain ⟨edited, files, applied, moves, refs, count⟩ :=
      executeRelocation_movesExactly consistent facts relocated
    refine ⟨r, project, plan, edited, files, facts, refs, applied, fun f => ?_, moves, count,
      moves.kept, moves.created, moves.keepsBytes⟩
    rw [moves.mem_files]
    constructor
    · rintro ⟨live, moving⟩
      exact ⟨live, (facts.plans.contains f live).mp moving⟩
    · rintro ⟨live, moving⟩
      exact ⟨live, (facts.plans.contains f live).mpr moving⟩

/-- The project `a` rooted at `x`, holding its manifest `p` and a file `f`, moves to `y`: two files
move, and the relocation moves exactly them. -/
theorem relocate_moves_exactly_nested_project :
    ({ disk := ⟨[([.text "x"], .dir), ([.text "x", .text "f"], .file (encode "z")),
        ([.text "x", .text "p"], .file (encode "\x7b\"name\":\"a\"\x7d"))]⟩ } : StagedTree).Consistent ∧
      (relocate
        { workspace := { manifestFile := "p", workspaceFile := "w", tsconfigCandidates := [],
                         ignoredDirs := [], sourceExtensions := [], rootProjectEntries := [] } }
        { project := "a", destination := "y" }).runOn
        { disk := ⟨[([.text "x"], .dir), ([.text "x", .text "f"], .file (encode "z")),
          ([.text "x", .text "p"], .file (encode "\x7b\"name\":\"a\"\x7d"))]⟩ } =
        (.ok { project := "a", newName := "a", oldRoot := ⟨["x"]⟩, newRoot := ⟨["y"]⟩,
               filesMoved := 2, references := [] },
          ((relocate
            { workspace := { manifestFile := "p", workspaceFile := "w", tsconfigCandidates := [],
                             ignoredDirs := [], sourceExtensions := [], rootProjectEntries := [] } }
            { project := "a", destination := "y" }).runOn
            { disk := ⟨[([.text "x"], .dir), ([.text "x", .text "f"], .file (encode "z")),
              ([.text "x", .text "p"], .file (encode "\x7b\"name\":\"a\"\x7d"))]⟩ }).2) ∧
      RelocatesExactly
        { workspace := { manifestFile := "p", workspaceFile := "w", tsconfigCandidates := [],
                         ignoredDirs := [], sourceExtensions := [], rootProjectEntries := [] } }
        { project := "a", destination := "y" }
        { disk := ⟨[([.text "x"], .dir), ([.text "x", .text "f"], .file (encode "z")),
          ([.text "x", .text "p"], .file (encode "\x7b\"name\":\"a\"\x7d"))]⟩ }
        { project := "a", newName := "a", oldRoot := ⟨["x"]⟩, newRoot := ⟨["y"]⟩,
          filesMoved := 2, references := [] }
        ((relocate
          { workspace := { manifestFile := "p", workspaceFile := "w", tsconfigCandidates := [],
                           ignoredDirs := [], sourceExtensions := [], rootProjectEntries := [] } }
          { project := "a", destination := "y" }).runOn
          { disk := ⟨[([.text "x"], .dir), ([.text "x", .text "f"], .file (encode "z")),
            ([.text "x", .text "p"], .file (encode "\x7b\"name\":\"a\"\x7d"))]⟩ }).2 := by
  have consistent : ({ disk := ⟨[([.text "x"], .dir), ([.text "x", .text "f"], .file (encode "z")),
      ([.text "x", .text "p"], .file (encode "\x7b\"name\":\"a\"\x7d"))]⟩ } : StagedTree).Consistent :=
    consistent_fresh ⟨⟨by decide, by decide⟩, by decide, by decide⟩ {}
  refine ⟨consistent, ?relocated, relocate_moves_exactly consistent ?relocated⟩
  exact Prod.ext (by cbv) rfl

/-- Moving a project onto its own root reports no file moved, though its move has two files: the
project `a` at `x`, holding `f` and its manifest `p`, moves to `x`. -/
theorem relocate_in_place_moves_no_files :
    ((relocate
        { workspace := { manifestFile := "p", workspaceFile := "w", tsconfigCandidates := [],
                         ignoredDirs := [], sourceExtensions := [], rootProjectEntries := [] } }
        { project := "a", destination := "x" }).runOn
        { disk := ⟨[([.text "x"], .dir), ([.text "x", .text "f"], .file (encode "z")),
          ([.text "x", .text "p"], .file (encode "\x7b\"name\":\"a\"\x7d"))]⟩ }).1 =
        .ok { project := "a", newName := "a", oldRoot := ⟨["x"]⟩, newRoot := ⟨["x"]⟩,
              filesMoved := 0, references := [] } ∧
      (do
        let plan ← planRelocation
          { workspace := { manifestFile := "p", workspaceFile := "w", tsconfigCandidates := [],
                           ignoredDirs := [], sourceExtensions := [], rootProjectEntries := [] } }
          { project := "a", destination := "x" }
          { disk := ⟨[([.text "x"], .dir), ([.text "x", .text "f"], .file (encode "z")),
            ([.text "x", .text "p"], .file (encode "\x7b\"name\":\"a\"\x7d"))]⟩ }
        plan.move.files
          { disk := ⟨[([.text "x"], .dir), ([.text "x", .text "f"], .file (encode "z")),
            ([.text "x", .text "p"], .file (encode "\x7b\"name\":\"a\"\x7d"))]⟩ }) =
        .ok [⟨["x", "f"]⟩, ⟨["x", "p"]⟩] :=
  ⟨by cbv, by cbv⟩

end Monorepo.Workspace
