import Mathlib
import Monorepo.Proofs.Tree.Failures
import Monorepo.Workspace.Relocate

/-! What a failed relocation leaves behind. A relocation decides the whole move on the tree as it
stands before it stages anything, so a failure while deciding leaves the tree exactly as it was.
The refusals of a move (a destination that collides, a name that is taken, a reference that could
be rewritten for more than one project) arise only while deciding: rewriting references, moving
files and rewriting the manifest fail only as files do. A failure after the first file has moved
can leave the project half moved. -/

namespace Monorepo

/-- The refusals of a move: a destination that collides with a project or an existing path, a
new name that is taken, and a reference that could be rewritten for more than one project. -/
def Error.RefusesMove : Error → Prop
  | .destinationCollision .. => True
  | .projectExists _ => True
  | .ambiguousReference .. => True
  | _ => False

theorem Error.not_refusesMove_of_ofFiles {e : Error} (files : e.OfFiles) : ¬e.RefusesMove := by
  cases e <;> simp_all [Error.OfFiles, Error.RefusesMove]

end Monorepo

namespace Monorepo.Workspace

open StagedTree

theorem runOn_relocate (config : Config.ToolConfig) (request : RelocateRequest) (t : StagedTree) :
    (relocate config request).runOn t = match planRelocation config request t with
      | .ok plan => (executeRelocation config.workspace plan).runOn t
      | .error e => (.error e, t) := by
  unfold relocate
  cases planned : planRelocation config request t with
  | ok plan => rw [TreeStep.runOn_bind_ok (by rw [TreeStep.runOn_query, planned])]
  | error e => rw [TreeStep.runOn_bind_error (by rw [TreeStep.runOn_query, planned])]

theorem Manifest.read_failsWith (t : StagedTree) (dir : Path) (settings : Config.WorkspaceSettings) :
    FailsWith Error.OfFiles (Manifest.read t dir settings) := by
  unfold Manifest.read Manifest.pathIn
  refine FailsWith.bind (dir.join_failsWith _) fun p _ =>
    FailsWith.bind (t.readJsonAs_failsWith p _) fun m _ => ?_
  dsimp only
  split
  · split
    · exact FailsWith.ok _
    · exact FailsWith.error trivial
  · exact FailsWith.ok _

theorem Manifest.write_failsWith (m : Manifest) (t : StagedTree) (settings : Config.WorkspaceSettings) :
    FailsWith Error.OfFiles (m.write t settings) := by
  unfold Manifest.write Manifest.path Manifest.pathIn
  refine FailsWith.bind (m.root.join_failsWith _) fun p _ => ?_
  dsimp only
  split
  · exact t.writeJson_failsWith p _
  · exact FailsWith.bind (t.readJsonAs_failsWith p _) fun document _ => t.writeJson_failsWith p _

theorem applySpanEdits_failsWith (t : StagedTree) (file : Path) (refs : List Reference) :
    FailsWith Error.OfFiles (applySpanEdits t file refs) := by
  unfold applySpanEdits
  refine FailsWith.bind (t.readToString_failsWith file) fun content _ => ?_
  dsimp only
  refine FailsWith.bind (FailsWith.forIn fun r _ bytes => ?_) fun bytes _ =>
    t.write_failsWith file bytes
  split
  · split
    · exact FailsWith.bind (FailsWith.error trivial) fun _ thrown => nomatch thrown
    · exact FailsWith.ok _
  · exact FailsWith.ok _

theorem applyJsonEdits_failsWith (t : StagedTree) (file : Path) (refs : List Reference) :
    FailsWith Error.OfFiles (applyJsonEdits t file refs) := by
  unfold applyJsonEdits
  exact FailsWith.bind (t.readJson_failsWith file) fun document _ => t.writeJson_failsWith file _

theorem applyFileReferences_failsWith (refs : List Reference) (file : Path) :
    TreeStep.FailsWith Error.OfFiles (applyFileReferences refs file) := by
  unfold applyFileReferences
  dsimp only
  split
  · refine .bind (.update fun t => applySpanEdits_failsWith t file _) fun _ => ?_
    split
    · exact .update fun t => applyJsonEdits_failsWith t file _
    · exact .pure _
  · split
    · exact .update fun t => applyJsonEdits_failsWith t file _
    · exact .pure _

theorem applyReferences_failsWith (refs : List Reference) :
    TreeStep.FailsWith Error.OfFiles (applyReferences refs) := by
  unfold applyReferences
  exact .bind (.forIn fun file _ => .bind (applyFileReferences_failsWith refs file) fun _ => .pure _)
    fun _ => .pure _

theorem Move.files_failsWith (mv : Move) (t : StagedTree) :
    FailsWith Error.OfFiles (mv.files t) :=
  FailsWith.flatMapM fun entry _ =>
    FailsWith.bind (t.walkFiles_failsWith entry) fun _ _ => FailsWith.ok _

theorem moveFiles_failsWith (mv : Move) (files : List Path) :
    TreeStep.FailsWith Error.OfFiles (moveFiles mv files) := by
  unfold moveFiles
  refine .bind (.forIn fun file _ => ?_) fun _ => .pure _
  split
  · exact .bind (rename_failsWith file _) fun _ => .pure _
  · exact .bind (.pure ()) fun _ => .pure _

theorem rewriteMovedManifest_failsWith (settings : Config.WorkspaceSettings) (mv : Move)
    (manifestPath : Path) :
    TreeStep.FailsWith Error.OfFiles (rewriteMovedManifest settings mv manifestPath) := by
  unfold rewriteMovedManifest
  split
  · split
    · exact .bind (.query fun t => Manifest.read_failsWith t _ settings) fun manifest =>
        .update fun t => Manifest.write_failsWith _ t settings
    · exact .throw trivial
  · exact .throw trivial

theorem executeRelocation_failsWith (settings : Config.WorkspaceSettings) (plan : RelocationPlan) :
    TreeStep.FailsWith Error.OfFiles (executeRelocation settings plan) := by
  unfold executeRelocation
  refine .bind (applyReferences_failsWith _) fun _ => ?_
  dsimp only
  split <;> refine .bind ?_ fun files => .bind (moveFiles_failsWith _ files) fun _ =>
    .bind (rewriteMovedManifest_failsWith settings _ _) fun _ => .pure _
  · exact .pure _
  · exact .query fun t => Move.files_failsWith _ t

/-- A relocation that fails while it decides the move gives that failure and stages nothing. A
relocation refused for a colliding destination, a taken name or an ambiguous reference leaves the
tree, and so its live view, exactly as it was: carrying out a plan never raises those. -/
theorem relocate_refused_keeps_tree (config : Config.ToolConfig) (request : RelocateRequest)
    (t : StagedTree) :
    (∀ e, planRelocation config request t = .error e →
      (relocate config request).runOn t = (.error e, t)) ∧
    ∀ e t', (relocate config request).runOn t = (.error e, t') → e.RefusesMove → t' = t := by
  refine ⟨fun e planned => by rw [runOn_relocate, planned], fun e t' failed refused => ?_⟩
  rw [runOn_relocate] at failed
  cases planned : planRelocation config request t with
  | error e' =>
    simp only [planned] at failed
    exact (Prod.mk.inj failed).2.symm
  | ok plan =>
    simp only [planned] at failed
    have files := executeRelocation_failsWith config.workspace plan t e (by rw [failed])
    exact absurd refused (Error.not_refusesMove_of_ofFiles files)

/-- Asking to move a project the workspace does not hold fails while deciding and stages
nothing. -/
theorem relocate_unknown_project_keeps_tree :
    planRelocation
        { workspace := { manifestFile := "p", workspaceFile := "w", tsconfigCandidates := [],
                         ignoredDirs := [], sourceExtensions := [], rootProjectEntries := ["s"] } }
        { project := "z", destination := "b" }
        { disk := ⟨[([.text "p"], .file (Utf8.encode "\x7b\"name\":\"a\"\x7d")), ([.text "s"], .dir),
          ([.text "s", .text "f"], .file (Utf8.encode "x"))]⟩ } =
        .error (.notFound "Project" "z") ∧
      (relocate
        { workspace := { manifestFile := "p", workspaceFile := "w", tsconfigCandidates := [],
                         ignoredDirs := [], sourceExtensions := [], rootProjectEntries := ["s"] } }
        { project := "z", destination := "b" }).runOn
        { disk := ⟨[([.text "p"], .file (Utf8.encode "\x7b\"name\":\"a\"\x7d")), ([.text "s"], .dir),
          ([.text "s", .text "f"], .file (Utf8.encode "x"))]⟩ } =
        (.error (.notFound "Project" "z"),
          { disk := ⟨[([.text "p"], .file (Utf8.encode "\x7b\"name\":\"a\"\x7d")), ([.text "s"], .dir),
            ([.text "s", .text "f"], .file (Utf8.encode "x"))]⟩ }) := by
  have planned : planRelocation
      { workspace := { manifestFile := "p", workspaceFile := "w", tsconfigCandidates := [],
                       ignoredDirs := [], sourceExtensions := [], rootProjectEntries := ["s"] } }
      { project := "z", destination := "b" }
      { disk := ⟨[([.text "p"], .file (Utf8.encode "\x7b\"name\":\"a\"\x7d")), ([.text "s"], .dir),
        ([.text "s", .text "f"], .file (Utf8.encode "x"))]⟩ } =
      .error (.notFound "Project" "z") := by
    cbv
  exact ⟨planned, (relocate_refused_keeps_tree _ _ _).1 _ planned⟩

/-- A failure after the renames leaves the project half moved. The project `a` at the root of a
workspace holding its manifest `p` and a file `s/f` moves to `b` with `s` as its only root entry:
`s/f` moves to `b/s/f`, and only then is the manifest found not to move. -/
theorem relocate_fails_after_moving_files :
    ({ disk := ⟨[([.text "p"], .file (Utf8.encode "\x7b\"name\":\"a\"\x7d")), ([.text "s"], .dir),
        ([.text "s", .text "f"], .file (Utf8.encode "x"))]⟩ } : StagedTree).disk.Workspace [] ∧
      ((relocate
        { workspace := { manifestFile := "p", workspaceFile := "w", tsconfigCandidates := [],
                         ignoredDirs := [], sourceExtensions := [], rootProjectEntries := ["s"] } }
        { project := "a", destination := "b" }).runOn
        { disk := ⟨[([.text "p"], .file (Utf8.encode "\x7b\"name\":\"a\"\x7d")), ([.text "s"], .dir),
          ([.text "s", .text "f"], .file (Utf8.encode "x"))]⟩ }).1 =
        .error (.notFound "Manifest" "p") ∧
      ({ disk := ⟨[([.text "p"], .file (Utf8.encode "\x7b\"name\":\"a\"\x7d")), ([.text "s"], .dir),
        ([.text "s", .text "f"], .file (Utf8.encode "x"))]⟩ } : StagedTree).view ⟨["s", "f"]⟩ =
        some (Utf8.encode "x") ∧
      ((relocate
        { workspace := { manifestFile := "p", workspaceFile := "w", tsconfigCandidates := [],
                         ignoredDirs := [], sourceExtensions := [], rootProjectEntries := ["s"] } }
        { project := "a", destination := "b" }).runOn
        { disk := ⟨[([.text "p"], .file (Utf8.encode "\x7b\"name\":\"a\"\x7d")), ([.text "s"], .dir),
          ([.text "s", .text "f"], .file (Utf8.encode "x"))]⟩ }).2.view ⟨["s", "f"]⟩ = none :=
  ⟨⟨⟨by decide, by decide⟩, by decide, by decide⟩, by cbv, by cbv, by cbv⟩

end Monorepo.Workspace
