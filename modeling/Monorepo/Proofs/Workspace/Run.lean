import Mathlib
import Monorepo.Workspace.Runner
import Monorepo.Proofs.Tree.Steps
import Monorepo.Proofs.Workspace.Frame

/-! Running generators. A run stages the generators' changes one generator after another; the
first failure ends it with nothing committed and no task run, whatever generators come after. When
every generator succeeds, the tasks they asked for are queued one per label, the first requested
of each, in the order of first request. A dry run then reports the staged changes and skips every
task; otherwise the tree is committed once, a failing commit ending the run before any task, and
the tasks are skipped or run in order until the first that fails, which the failure names. Main
statement: `runStagings_commits_once_then_runs_tasks`. -/

namespace Monorepo.TreeStep

open StagedTree

/-- A step that, succeeding or failing, leaves the disk as it was and does not commit the tree. -/
def KeepsDisk {α : Type} (step : TreeStep α) : Prop :=
  ∀ t, (step.runOn t).2.disk = t.disk ∧ (step.runOn t).2.committed = t.committed

namespace KeepsDisk

variable {α β : Type}

theorem pure (a : α) : KeepsDisk (Pure.pure a : TreeStep α) := fun _ => ⟨rfl, rfl⟩

theorem throw (e : Error) : KeepsDisk (MonadExcept.throw e : TreeStep α) := fun _ => ⟨rfl, rfl⟩

theorem get : KeepsDisk (MonadState.get : TreeStep StagedTree) := fun _ => ⟨rfl, rfl⟩

theorem query (f : StagedTree → Outcome α) : KeepsDisk (TreeStep.query f) := fun t => by
  rw [runOn_query]
  exact ⟨rfl, rfl⟩

theorem update {f : StagedTree → Outcome StagedTree}
    (keeps : ∀ t t', f t = .ok t' → t'.disk = t.disk ∧ t'.committed = t.committed) :
    KeepsDisk (TreeStep.update f) := fun t => by
  rw [runOn_update]
  cases found : f t with
  | ok t' => exact keeps t t' found
  | error e => exact ⟨rfl, rfl⟩

theorem bind {x : TreeStep α} {f : α → TreeStep β} (first : KeepsDisk x)
    (next : ∀ a, KeepsDisk (f a)) : KeepsDisk (x >>= f) := by
  intro t
  cases run : x.runOn t with
  | mk r t₁ =>
    have kept := first t
    rw [run] at kept
    cases r with
    | ok a =>
      rw [runOn_bind_ok run]
      exact ⟨(next a t₁).1.trans kept.1, (next a t₁).2.trans kept.2⟩
    | error e =>
      rw [runOn_bind_error run]
      exact kept

theorem forIn {l : List α} {init : β} {body : α → β → TreeStep (ForInStep β)}
    (each : ∀ a ∈ l, ∀ b, KeepsDisk (body a b)) : KeepsDisk (forIn l init body) := by
  induction l generalizing init with
  | nil => exact pure init
  | cons a rest ih =>
    rw [List.forIn_cons]
    refine bind (each a (by simp) init) fun step => ?_
    cases step with
    | done b => exact pure b
    | yield b => exact ih fun a' member => each a' (by simp [member])

theorem mapM {l : List α} {f : α → TreeStep β} (each : ∀ a ∈ l, KeepsDisk (f a)) :
    KeepsDisk (l.mapM f) := by
  induction l with
  | nil => exact pure []
  | cons a rest ih =>
    rw [List.mapM_cons]
    exact bind (each a (by simp)) fun b =>
      bind (ih fun a' member => each a' (by simp [member])) fun bs => pure _

end KeepsDisk

end Monorepo.TreeStep

namespace Monorepo.StagedTree

variable {t t' : StagedTree}

theorem keepsDisk_of_write {p : Path} {c : Utf8.Bytes} (written : t.write p c = .ok t') :
    t'.disk = t.disk ∧ t'.committed = t.committed := by
  obtain ⟨-, -, -, -, rfl⟩ := write_eq_ok_iff.mp written
  exact ⟨rfl, rfl⟩

theorem keepsDisk_of_foldl_deleteFile (files : List Path) (t : StagedTree) :
    (files.foldl deleteFile t).disk = t.disk ∧ (files.foldl deleteFile t).committed = t.committed := by
  induction files generalizing t with
  | nil => exact ⟨rfl, rfl⟩
  | cons f rest ih =>
    have first : (t.deleteFile f).disk = t.disk ∧ (t.deleteFile f).committed = t.committed := by
      unfold deleteFile
      split <;> exact ⟨rfl, rfl⟩
    rw [List.foldl_cons]
    exact ⟨(ih _).1.trans first.1, (ih _).2.trans first.2⟩

theorem keepsDisk_of_delete {p : Path} (deleted : t.delete p = .ok t') :
    t'.disk = t.disk ∧ t'.committed = t.committed := by
  unfold delete at deleted
  obtain ⟨_, -, deleted⟩ := except_bind_eq_ok.mp deleted
  split at deleted
  · cases deleted
    exact keepsDisk_of_foldl_deleteFile [p] t
  split at deleted
  · obtain ⟨files, -, deleted⟩ := except_bind_eq_ok.mp deleted
    cases deleted
    exact keepsDisk_of_foldl_deleteFile files t
  · cases deleted
    exact ⟨rfl, rfl⟩

theorem moveAll_keepsDisk (moves : List (Path × Path)) : (moveAll moves).KeepsDisk := by
  unfold moveAll
  refine .bind (.mapM fun move _ => ?_) fun contents =>
    .bind (.forIn fun move _ _ => ?_) fun _ => .bind (.forIn fun entry _ _ => ?_) fun _ => .pure _
  · exact .bind (.query _) fun _ => .pure _
  · exact .bind (.update fun _ _ => keepsDisk_of_delete) fun _ => .pure _
  · exact .bind (.update fun _ _ => keepsDisk_of_write) fun _ => .pure _

theorem rename_keepsDisk (src dst : Path) : (rename src dst).KeepsDisk := by
  unfold rename
  refine .bind .get fun t => .bind (.query _) fun _ => ?_
  split
  · exact .pure _
  dsimp only
  split
  · exact .bind (.pure _) moveAll_keepsDisk
  split
  · have walked := TreeStep.KeepsDisk.bind (.query fun t => t.walkFiles src) fun files =>
      .bind (.pure (files.map fun f => (f, dst.append ((f.stripPrefix src).getD Path.root))))
        moveAll_keepsDisk
    split
    · exact .bind (.throw _) fun _ => walked
    · exact walked
  · exact .bind (.throw _) moveAll_keepsDisk

end Monorepo.StagedTree

namespace Monorepo.Workspace

open StagedTree

namespace RunStep

variable {α β : Type}

@[simp] theorem runOn_pure (a : α) (st : RunState) : (pure a : RunStep α).runOn st = (.ok a, st) :=
  rfl

@[simp] theorem runOn_throw (e : Error) (st : RunState) :
    (throw e : RunStep α).runOn st = (.error e, st) := rfl

theorem runOn_bind_ok {x : RunStep α} {f : α → RunStep β} {st st₁ : RunState} {a : α}
    (first : x.runOn st = (.ok a, st₁)) : (x >>= f).runOn st = (f a).runOn st₁ := by
  simp only [runOn] at first ⊢
  simp [ExceptT.run_bind, StateT.run_bind, first]
  rfl

theorem runOn_bind_error {x : RunStep α} {f : α → RunStep β} {st st₁ : RunState} {e : Error}
    (first : x.runOn st = (.error e, st₁)) : (x >>= f).runOn st = (.error e, st₁) := by
  simp only [runOn] at first ⊢
  simp [ExceptT.run_bind, StateT.run_bind, first]
  rfl

@[simp] theorem runOn_get (st : RunState) : (MonadState.get : RunStep RunState).runOn st = (.ok st, st) :=
  rfl

@[simp] theorem runOn_map_get (f : RunState → α) (st : RunState) :
    (f <$> (MonadState.get : RunStep RunState)).runOn st = (.ok (f st), st) := rfl

@[simp] theorem runOn_record (es : List TaskEvent) (st : RunState) :
    (record es).runOn st = (.ok (), { st with events := st.events ++ es }) := rfl

theorem runOn_onTree (step : TreeStep α) (st : RunState) :
    (onTree step).runOn st = ((step.runOn st.tree).1, { st with tree := (step.runOn st.tree).2 }) :=
  rfl

end RunStep

open RunStep

/-- `kept` holds one task per label requested, the first requested with that label, in the
order of first request. -/
structure FirstOfEachLabel (requested kept : List Task) : Prop where
  labels : kept.map (·.label) = (requested.map (·.label)).eraseDups
  first : ∀ τ ∈ kept, requested.find? (·.label == τ.label) = some τ

theorem mem_labels_foldl_enqueue {requested : List Task} {l : String} :
    l ∈ (requested.foldl enqueue []).map (·.label) ↔ l ∈ requested.map (·.label) := by
  induction requested using List.reverseRecOn generalizing l with
  | nil => simp
  | append_singleton init τ ih =>
    rw [List.foldl_append, List.foldl_cons, List.foldl_nil, enqueue]
    split
    · rename_i queued
      obtain ⟨σ, member, same⟩ := List.any_eq_true.mp queued
      have known : τ.label ∈ init.map (·.label) :=
        ih.mp (List.mem_map.mpr ⟨σ, member, by simpa using same⟩)
      rw [ih, List.map_append, List.mem_append]
      constructor
      · exact Or.inl
      · rintro (old | new)
        · exact old
        · simp only [List.map_cons, List.map_nil, List.mem_singleton] at new
          exact new ▸ known
    · simp only [List.map_append, List.mem_append, ih]

theorem firstOfEachLabel_foldl_enqueue (requested : List Task) :
    FirstOfEachLabel requested (requested.foldl enqueue []) := by
  induction requested using List.reverseRecOn with
  | nil => exact ⟨by simp, by simp⟩
  | append_singleton init τ ih =>
    obtain ⟨labels, first⟩ := ih
    rw [List.foldl_append, List.foldl_cons, List.foldl_nil, enqueue]
    have known_iff : (init.foldl enqueue []).any (·.label == τ.label) = true ↔
        τ.label ∈ init.map (·.label) := by
      rw [← mem_labels_foldl_enqueue]
      simp
    have dedup : ((init ++ [τ]).map (·.label)).eraseDups = (init.map (·.label)).eraseDups ++
        (if τ.label ∈ init.map (·.label) then [] else [τ.label]) := by
      rw [List.map_append, List.eraseDups_append]
      split <;> simp_all [List.removeAll, List.eraseDups_cons]
    split
    · rename_i queued
      refine ⟨by rw [labels, dedup, if_pos (known_iff.mp queued), List.append_nil], fun σ kept => ?_⟩
      rw [List.find?_append, first σ kept]
      rfl
    · rename_i fresh
      have unseen : τ.label ∉ init.map (·.label) := fun known => fresh (known_iff.mpr known)
      refine ⟨by rw [List.map_append, labels, dedup, if_neg unseen]; rfl, fun σ kept => ?_⟩
      rcases List.mem_append.mp kept with old | new
      · rw [List.find?_append, first σ old]
        rfl
      · obtain rfl := List.mem_singleton.mp new
        have none : init.find? (·.label == σ.label) = none := by
          rw [List.find?_eq_none]
          intro ρ member same
          exact unseen (List.mem_map.mpr ⟨ρ, member, by simpa using same⟩)
        rw [List.find?_append, none]
        simp

/-- A generator only stages: whatever it does, succeeding or failing, it leaves the disk as it
was and does not commit the tree. -/
def Staging.OnlyStages (g : Staging) : Prop := g.stage.KeepsDisk

theorem OnlyStages.mapM {gs : List Staging} (stages : ∀ g ∈ gs, g.OnlyStages) (t : StagedTree) :
    ((gs.mapM Staging.stage).runOn t).2.disk = t.disk ∧
      ((gs.mapM Staging.stage).runOn t).2.committed = t.committed :=
  TreeStep.KeepsDisk.mapM stages t

section Generators

open TreeStep StagedTree

variable {t u : StagedTree}

theorem keepsDisk_of_applySpanEdits {file : Path} {refs : List Reference}
    (edited : applySpanEdits t file refs = .ok u) : u.disk = t.disk ∧ u.committed = t.committed := by
  unfold applySpanEdits at edited
  obtain ⟨content, -, edited⟩ := except_bind_eq_ok.mp edited
  obtain ⟨bytes, -, written⟩ := except_bind_eq_ok.mp edited
  exact keepsDisk_of_write written

theorem keepsDisk_of_applyJsonEdits {file : Path} {refs : List Reference}
    (edited : applyJsonEdits t file refs = .ok u) : u.disk = t.disk ∧ u.committed = t.committed := by
  unfold applyJsonEdits at edited
  obtain ⟨document, -, written⟩ := except_bind_eq_ok.mp edited
  exact keepsDisk_of_write written

theorem keepsDisk_of_applyConfigPatch {file : Path} {l : Codemod.Locator} {patch : Codemod.ConfigPatch}
    {report : Codemod.PatchReport} (patched : Codemod.applyConfigPatch t file l patch = .ok (u, report)) :
    u.disk = t.disk ∧ u.committed = t.committed := by
  unfold Codemod.applyConfigPatch at patched
  split at patched
  · cases patched
  obtain ⟨language, -, patched⟩ := except_bind_eq_ok.mp patched
  obtain ⟨source, -, patched⟩ := except_bind_eq_ok.mp patched
  obtain ⟨⟨updated, outcomes⟩, -, patched⟩ := except_bind_eq_ok.mp patched
  dsimp only at patched
  split at patched
  · obtain ⟨u', written, done⟩ := except_bind_eq_ok.mp patched
    cases done
    exact keepsDisk_of_write written
  · cases patched
    exact ⟨rfl, rfl⟩

theorem applyFileReferences_keepsDisk (refs : List Reference) (file : Path) :
    (applyFileReferences refs file).KeepsDisk := by
  unfold applyFileReferences
  dsimp only
  split
  · refine .bind (.update fun _ _ => keepsDisk_of_applySpanEdits) fun _ => ?_
    split
    · exact .update fun _ _ => keepsDisk_of_applyJsonEdits
    · exact .pure _
  · split
    · exact .update fun _ _ => keepsDisk_of_applyJsonEdits
    · exact .pure _

theorem applyReferences_keepsDisk (refs : List Reference) : (applyReferences refs).KeepsDisk := by
  unfold applyReferences
  exact .bind (.forIn fun file _ _ => .bind (applyFileReferences_keepsDisk refs file) fun _ => .pure _)
    fun _ => .pure _

theorem moveFiles_keepsDisk (mv : Move) (files : List Path) : (moveFiles mv files).KeepsDisk := by
  unfold moveFiles
  refine .bind (.forIn fun file _ _ => ?_) fun _ => .pure _
  split
  · exact .bind (rename_keepsDisk file _) fun _ => .pure _
  · exact .bind (.pure ()) fun _ => .pure _

theorem rewriteMovedManifest_keepsDisk (settings : Config.WorkspaceSettings) (mv : Move)
    (manifestPath : Path) : (rewriteMovedManifest settings mv manifestPath).KeepsDisk := by
  unfold rewriteMovedManifest
  split
  · split
    · refine .bind (.query _) fun manifest => .update fun _ _ written => ?_
      obtain ⟨p, c, -, written⟩ := Manifest.write_eq_ok written
      exact keepsDisk_of_write written
    · exact .throw _
  · exact .throw _

theorem relocate_keepsDisk (config : Config.ToolConfig) (request : RelocateRequest) :
    (relocate config request).KeepsDisk := by
  unfold relocate executeRelocation
  refine .bind (.query _) fun plan => .bind (applyReferences_keepsDisk _) fun _ => ?_
  dsimp only
  split <;> refine .bind ?_ fun files => .bind (moveFiles_keepsDisk _ files) fun _ =>
    .bind (rewriteMovedManifest_keepsDisk _ _ _) fun _ => .pure _
  · exact .pure _
  · exact .query _

theorem convertToMonorepo_keepsDisk (config : Config.ToolConfig) :
    (convertToMonorepo config).KeepsDisk := by
  unfold convertToMonorepo
  refine .bind (.query _) fun registry => ?_
  split
  · exact .bind (.mapM fun request _ => relocate_keepsDisk config request) fun _ => .pure _
  · exact .throw _

theorem applyConfigPatches_keepsDisk (targets : List Codemod.PatchTarget) :
    (Codemod.applyConfigPatches targets).KeepsDisk := by
  unfold Codemod.applyConfigPatches
  refine .mapM fun target _ t => ?_
  rw [runOn_bind_ok (runOn_get t)]
  split
  · rename_i u report patched
    exact keepsDisk_of_applyConfigPatch patched
  · exact ⟨rfl, rfl⟩

theorem updateViteBuildConfig_keepsDisk (config : Config.ToolConfig) :
    (Codemod.updateViteBuildConfig config).KeepsDisk := by
  unfold Codemod.updateViteBuildConfig
  refine .bind (.query _) fun registry => .bind (.forIn fun project _ _ => ?_) fun found =>
    .bind (applyConfigPatches_keepsDisk _) fun _ => .pure _
  dsimp only
  split
  · split
    · refine .bind (.query _) fun file => ?_
      split <;> exact .pure _
    · exact .pure _
  · exact .pure _

theorem Generator.staging_onlyStages (g : Generator) : g.staging.OnlyStages := by
  cases g with
  | move config request =>
    exact .bind (relocate_keepsDisk config request) fun _ => .bind .get fun _ => .pure _
  | convert config =>
    exact .bind (convertToMonorepo_keepsDisk config) fun _ => .bind .get fun _ => .pure _
  | vite config => exact .bind (updateViteBuildConfig_keepsDisk config) fun _ => .pure _
  | patch file locator edits =>
    refine .bind (.update fun t u patched => ?_) fun _ => .pure _
    cases found : Codemod.applyConfigPatch t file locator edits with
    | ok result =>
      rw [found] at patched
      cases patched
      exact keepsDisk_of_applyConfigPatch found
    | error e =>
      rw [found] at patched
      cases patched
  | fixed name writes tasks =>
    refine .bind (.forIn fun _ _ _ => ?_) fun _ => .pure _
    exact .bind (.update fun _ _ => keepsDisk_of_write) fun _ => .pure _

end Generators

theorem runOn_stageAll_ok {gs : List Staging} {t u : StagedTree} {made : List (List Task)}
    (staged : (gs.mapM Staging.stage).runOn t = (.ok made, u)) (queued : List Task)
    (events : List TaskEvent) :
    (stageAll queued gs).runOn ⟨t, events⟩ =
      (.ok (made.flatten.foldl enqueue queued), ⟨u, events ++ made.flatten.map .queued⟩) := by
  induction gs generalizing t queued events made with
  | nil =>
    rw [List.mapM_nil, TreeStep.runOn_pure, Prod.mk.injEq, Except.ok.injEq] at staged
    obtain ⟨rfl, rfl⟩ := staged
    simp [stageAll]
  | cons g rest ih =>
    rw [List.mapM_cons] at staged
    obtain ⟨m, t₁, first, staged⟩ := TreeStep.runOn_bind_eq_ok staged
    obtain ⟨ms, t₂, later, done⟩ := TreeStep.runOn_bind_eq_ok staged
    rw [TreeStep.runOn_pure, Prod.mk.injEq, Except.ok.injEq] at done
    obtain ⟨rfl, rfl⟩ := done
    rw [stageAll, runOn_bind_ok (by rw [runOn_onTree, first]), runOn_bind_ok (runOn_record _ _),
      ih later]
    simp [List.foldl_append]

theorem runOn_stageAll_error {pre : List Staging} {g : Staging} (post : List Staging)
    {t u u' : StagedTree} {made : List (List Task)} {e : Error}
    (staged : (pre.mapM Staging.stage).runOn t = (.ok made, u)) (fails : g.stage.runOn u = (.error e, u'))
    (queued : List Task) (events : List TaskEvent) :
    (stageAll queued (pre ++ g :: post)).runOn ⟨t, events⟩ =
      (.error e, ⟨u', events ++ made.flatten.map .queued⟩) := by
  induction pre generalizing t queued events made with
  | nil =>
    rw [List.mapM_nil, TreeStep.runOn_pure, Prod.mk.injEq, Except.ok.injEq] at staged
    obtain ⟨rfl, rfl⟩ := staged
    rw [List.nil_append, stageAll, runOn_bind_error (by rw [runOn_onTree, fails])]
    simp
  | cons g₀ rest ih =>
    rw [List.mapM_cons] at staged
    obtain ⟨m, t₁, first, staged⟩ := TreeStep.runOn_bind_eq_ok staged
    obtain ⟨ms, t₂, later, done⟩ := TreeStep.runOn_bind_eq_ok staged
    rw [TreeStep.runOn_pure, Prod.mk.injEq, Except.ok.injEq] at done
    obtain ⟨rfl, rfl⟩ := done
    rw [List.cons_append, stageAll, runOn_bind_ok (by rw [runOn_onTree, first]),
      runOn_bind_ok (runOn_record _ _), ih later]
    simp

theorem runOn_runTasks_ok {tasks : List Task} (succeed : ∀ τ ∈ tasks, τ.run = .ok ())
    (ran : List String) (st : RunState) :
    (runTasks ran tasks).runOn st =
      (.ok (ran ++ tasks.map (·.label)), { st with events := st.events ++ tasks.map .started }) := by
  induction tasks generalizing ran st with
  | nil => simp [runTasks]
  | cons τ rest ih =>
    have later := ih (fun σ member => succeed σ (by simp [member]))
    rw [runTasks, runOn_bind_ok (runOn_record _ _), succeed τ (by simp)]
    simp only
    rw [later]
    simp

theorem runOn_runTasks_error {done : List Task} {τ : Task} (rest : List Task) {e : Error}
    (succeed : ∀ σ ∈ done, σ.run = .ok ()) (fails : τ.run = .error e) (ran : List String)
    (st : RunState) :
    (runTasks ran (done ++ τ :: rest)).runOn st =
      (.error (.other s!"post-commit task '{τ.label}' failed: {e.message}"),
        { st with events := st.events ++ (done ++ [τ]).map .started }) := by
  induction done generalizing ran st with
  | nil =>
    rw [List.nil_append, runTasks, runOn_bind_ok (runOn_record _ _), fails]
    simp
  | cons σ more ih =>
    have later := ih (fun ρ member => succeed ρ (by simp [member]))
    rw [List.cons_append, runTasks, runOn_bind_ok (runOn_record _ _), succeed σ (by simp)]
    simp only
    rw [later]
    simp

section Runs

variable {gs : List Staging} {t u u' : StagedTree} {made : List (List Task)}

theorem runOn_runStagings_of_generator_fails {pre : List Staging} {g : Staging} (post : List Staging)
    {e : Error} (staged : (pre.mapM Staging.stage).runOn t = (.ok made, u))
    (fails : g.stage.runOn u = (.error e, u')) (dryRun skipTasks : Bool) :
    (runStagings (pre ++ g :: post) dryRun skipTasks).runOn { tree := t } =
      (.error e, { tree := u', events := made.flatten.map .queued }) := by
  rw [runStagings, runOn_bind_error (runOn_stageAll_error post staged fails [] [])]
  simp

theorem runOn_runStagings_dry (staged : (gs.mapM Staging.stage).runOn t = (.ok made, u))
    (skipTasks : Bool) :
    (runStagings gs true skipTasks).runOn { tree := t } =
      (.ok { generators := gs.map (·.name), changes := u.changes,
             tasksSkipped := (made.flatten.foldl enqueue []).map (·.label) },
        { tree := u, events := made.flatten.map .queued }) := by
  rw [runStagings, runOn_bind_ok (runOn_stageAll_ok staged [] [])]
  simp

theorem runOn_runStagings_commit_fails (staged : (gs.mapM Staging.stage).runOn t = (.ok made, u))
    {e : Error} (failed : StagedTree.commit.runOn u = (.error e, u')) (skipTasks : Bool) :
    (runStagings gs false skipTasks).runOn { tree := t } =
      (.error e, { tree := u', events := made.flatten.map .queued }) := by
  rw [runStagings, runOn_bind_ok (runOn_stageAll_ok staged [] [])]
  simp only [runOn_bind_ok (runOn_get _), Bool.false_eq_true, if_false]
  rw [runOn_bind_error (by rw [runOn_onTree, failed])]
  simp

theorem runOn_runStagings_skip (staged : (gs.mapM Staging.stage).runOn t = (.ok made, u))
    {c : Tree.CommitReport} (committed : StagedTree.commit.runOn u = (.ok c, u')) :
    (runStagings gs false true).runOn { tree := t } =
      (.ok { generators := gs.map (·.name), changes := u.changes, commit := some c,
             tasksSkipped := (made.flatten.foldl enqueue []).map (·.label) },
        { tree := u', events := made.flatten.map .queued }) := by
  rw [runStagings, runOn_bind_ok (runOn_stageAll_ok staged [] [])]
  simp only [runOn_bind_ok (runOn_get _), Bool.false_eq_true, if_false]
  rw [runOn_bind_ok (by rw [runOn_onTree, committed])]
  simp

theorem runOn_runStagings_tasks_succeed (staged : (gs.mapM Staging.stage).runOn t = (.ok made, u))
    {c : Tree.CommitReport} (committed : StagedTree.commit.runOn u = (.ok c, u'))
    (succeed : ∀ τ ∈ made.flatten.foldl enqueue [], τ.run = .ok ()) :
    (runStagings gs false false).runOn { tree := t } =
      (.ok { generators := gs.map (·.name), changes := u.changes, commit := some c,
             tasksRun := (made.flatten.foldl enqueue []).map (·.label) },
        { tree := u', events := made.flatten.map .queued ++
            (made.flatten.foldl enqueue []).map .started }) := by
  rw [runStagings, runOn_bind_ok (runOn_stageAll_ok staged [] [])]
  simp only [runOn_bind_ok (runOn_get _), Bool.false_eq_true, if_false]
  rw [runOn_bind_ok (by rw [runOn_onTree, committed])]
  simp only
  rw [runOn_bind_ok (runOn_runTasks_ok succeed [] _)]
  simp

theorem runOn_runStagings_task_fails (staged : (gs.mapM Staging.stage).runOn t = (.ok made, u))
    {c : Tree.CommitReport} (committed : StagedTree.commit.runOn u = (.ok c, u'))
    {done : List Task} {τ : Task} {rest : List Task} {e : Error}
    (kept : made.flatten.foldl enqueue [] = done ++ τ :: rest) (succeed : ∀ σ ∈ done, σ.run = .ok ())
    (fails : τ.run = .error e) :
    (runStagings gs false false).runOn { tree := t } =
      (.error (.other s!"post-commit task '{τ.label}' failed: {e.message}"),
        { tree := u', events := made.flatten.map .queued ++ (done ++ [τ]).map .started }) := by
  rw [runStagings, runOn_bind_ok (runOn_stageAll_ok staged [] [])]
  simp only [runOn_bind_ok (runOn_get _), Bool.false_eq_true, if_false]
  rw [runOn_bind_ok (by rw [runOn_onTree, committed])]
  simp only
  rw [kept, runOn_bind_error (runOn_runTasks_error rest succeed fails [] _)]
  simp

/-- What a run does once every generator has staged its changes, leaving the tree `u` and asking
for the tasks `made`, of which `kept` are queued. A dry run reports the staged changes and skips
every queued task. Otherwise the staged tree is committed once: a failing commit is the run's
failure and no task starts; a run that skips its tasks reports them; else the tasks start in
order, and either all succeed and the run reports their labels, or the first failure ends the run
with an error naming its task, and no later task starts. -/
structure FinishesRun (gs : List Staging) (t u : StagedTree) (made : List (List Task))
    (kept : List Task) (dryRun skipTasks : Bool) : Prop where
  dry : dryRun = true → (runStagings gs dryRun skipTasks).runOn { tree := t } =
    (.ok { generators := gs.map (·.name), changes := u.changes, tasksSkipped := kept.map (·.label) },
      { tree := u, events := made.flatten.map .queued })
  commitFails : dryRun = false → ∀ e u', StagedTree.commit.runOn u = (.error e, u') →
    (runStagings gs dryRun skipTasks).runOn { tree := t } =
      (.error e, { tree := u', events := made.flatten.map .queued })
  skipped : dryRun = false → skipTasks = true → ∀ c u', StagedTree.commit.runOn u = (.ok c, u') →
    (runStagings gs dryRun skipTasks).runOn { tree := t } =
      (.ok { generators := gs.map (·.name), changes := u.changes, commit := some c,
             tasksSkipped := kept.map (·.label) },
        { tree := u', events := made.flatten.map .queued })
  tasksSucceed : dryRun = false → skipTasks = false → ∀ c u',
    StagedTree.commit.runOn u = (.ok c, u') → (∀ τ ∈ kept, τ.run = .ok ()) →
    (runStagings gs dryRun skipTasks).runOn { tree := t } =
      (.ok { generators := gs.map (·.name), changes := u.changes, commit := some c,
             tasksRun := kept.map (·.label) },
        { tree := u', events := made.flatten.map .queued ++ kept.map .started })
  taskFails : dryRun = false → skipTasks = false → ∀ c u',
    StagedTree.commit.runOn u = (.ok c, u') → ∀ done τ rest e, kept = done ++ τ :: rest →
    (∀ σ ∈ done, σ.run = .ok ()) → τ.run = .error e →
    (runStagings gs dryRun skipTasks).runOn { tree := t } =
      (.error (.other s!"post-commit task '{τ.label}' failed: {e.message}"),
        { tree := u', events := made.flatten.map .queued ++ (done ++ [τ]).map .started })

/-- The runner's contract for the generators `gs` on the tree `t`. A failing generator ends the
run with its failure: no later generator runs, the tree is not committed, the disk is as it was
and no task starts. When every generator succeeds, one task per label requested is queued, the
first requested, in the order of first request, and the run finishes as `FinishesRun` says; a dry
run leaves the disk as it was and the tree uncommitted. -/
structure RunnerContract (gs : List Staging) (t : StagedTree) (dryRun skipTasks : Bool) : Prop where
  generatorFails : ∀ pre g post made u e u', gs = pre ++ g :: post →
    (pre.mapM Staging.stage).runOn t = (.ok made, u) → g.stage.runOn u = (.error e, u') →
    (runStagings gs dryRun skipTasks).runOn { tree := t } =
        (.error e, { tree := u', events := made.flatten.map .queued }) ∧
      u'.disk = t.disk ∧ u'.committed = t.committed
  generatorsSucceed : ∀ made u, (gs.mapM Staging.stage).runOn t = (.ok made, u) →
    u.disk = t.disk ∧ u.committed = t.committed ∧
      ∃ kept, FirstOfEachLabel made.flatten kept ∧ FinishesRun gs t u made kept dryRun skipTasks

/-- A run of generators that only stage keeps the runner's contract: it commits once, after every
generator has succeeded, and then runs the tasks in order. -/
theorem runStagings_commits_once_then_runs_tasks (stages : ∀ g ∈ gs, g.OnlyStages)
    (t : StagedTree) (dryRun skipTasks : Bool) : RunnerContract gs t dryRun skipTasks := by
  constructor
  · intro pre g post made u e u' split staged fails
    subst split
    have before := OnlyStages.mapM (fun g' (member : g' ∈ pre) => stages g' (by simp [member])) t
    have failing := stages g (by simp) u
    rw [staged] at before
    rw [fails] at failing
    exact ⟨runOn_runStagings_of_generator_fails post staged fails dryRun skipTasks,
      failing.1.trans before.1, failing.2.trans before.2⟩
  · intro made u staged
    have unchanged := OnlyStages.mapM stages t
    rw [staged] at unchanged
    refine ⟨unchanged.1, unchanged.2, made.flatten.foldl enqueue [],
      firstOfEachLabel_foldl_enqueue _, ⟨?_, ?_, ?_, ?_, ?_⟩⟩
    · rintro rfl
      exact runOn_runStagings_dry staged skipTasks
    · rintro rfl e u' failed
      exact runOn_runStagings_commit_fails staged failed skipTasks
    · rintro rfl rfl c u' committed
      exact runOn_runStagings_skip staged committed
    · rintro rfl rfl c u' committed succeed
      exact runOn_runStagings_tasks_succeed staged committed succeed
    · rintro rfl rfl c u' committed done τ rest e kept succeed fails
      exact runOn_runStagings_task_fails staged committed kept succeed fails

/-- A run, with its tasks, over a disk holding one file, of a generator that writes another file
and asks for a task labelled `x` twice, the second time failing, and one labelled `y` that
fails. -/
theorem runStagings_commits_once_then_runs_tasks_of_fixed_generator :
    (∀ g ∈ [(Generator.fixed "g" [(⟨["b"]⟩, [1])]
        [⟨"x", .succeed⟩, ⟨"x", .fail⟩, ⟨"y", .fail⟩]).staging], g.OnlyStages) ∧
      RunnerContract [(Generator.fixed "g" [(⟨["b"]⟩, [1])]
        [⟨"x", .succeed⟩, ⟨"x", .fail⟩, ⟨"y", .fail⟩]).staging]
        { disk := ⟨[([.text "a"], .file [120])]⟩ } false false := by
  have stages : ∀ g ∈ [(Generator.fixed "g" [(⟨["b"]⟩, [1])]
      [⟨"x", .succeed⟩, ⟨"x", .fail⟩, ⟨"y", .fail⟩]).staging], g.OnlyStages := by
    intro g member
    rw [List.mem_singleton] at member
    subst member
    exact Generator.staging_onlyStages _
  exact ⟨stages, runStagings_commits_once_then_runs_tasks stages _ false false⟩

end Runs

end Monorepo.Workspace
