import Monorepo.Proofs.Tree.Listing
import Monorepo.Proofs.Tree.Steps
import Monorepo.Workspace.Relocate

/-! What a relocation decides before it stages anything. The registry holds the projects whose
manifests a walk finds, each rooted where its manifest lies. A move that passes its checks goes
below the root, and unless the project stays where it is, to a path that holds nothing yet. The
plan of the move names the paths that move: those below the project's root, or for the project at
the workspace root those in its configured entries, less the projects nested below. -/

namespace Monorepo.Workspace

open StagedTree

variable {t : StagedTree}

theorem Manifest.read_root {dir : Path} {settings : Config.WorkspaceSettings} {m : Manifest}
    (read : Manifest.read t dir settings = .ok m) : m.root = dir := by
  unfold Manifest.read at read
  simp only [except_bind_eq_ok] at read
  obtain ⟨p, -, m₀, -, named⟩ := read
  split at named
  · split at named
    · cases named
      rfl
    · cases named
  · cases named
    rfl

theorem Registry.build_manifests {config : Config.ToolConfig} {r : Registry}
    (built : Registry.build t config = .ok r) :
    ∀ m ∈ r.projects, (t.view (m.root.child config.workspace.manifestFile)).isSome := by
  unfold Registry.build at built
  rw [except_bind_eq_ok] at built
  obtain ⟨files, walked, folded⟩ := built
  have live : ∀ f ∈ files, (t.view f).isSome := fun f member => live_of_walkFilesWhere walked member
  clear walked
  have empty : ∀ m ∈ ({} : Registry).projects,
      (t.view (m.root.child config.workspace.manifestFile)).isSome := by simp
  generalize ({} : Registry) = acc at folded empty
  induction files generalizing acc with
  | nil =>
    cases folded
    exact empty
  | cons file rest ih =>
    rw [List.foldlM_cons, except_bind_eq_ok] at folded
    obtain ⟨acc', stepped, folded⟩ := folded
    refine ih (fun f member => live f (by simp [member])) acc' folded ?_
    split at stepped
    · cases stepped
      exact empty
    rename_i named
    split at stepped
    · rename_i dir parent
      rw [except_bind_eq_ok] at stepped
      obtain ⟨project, read, added⟩ := stepped
      split at added
      · cases added
      cases added
      intro m member
      rcases List.mem_append.mp member with old | new
      · exact empty m old
      rw [List.mem_singleton.mp new, Manifest.read_root read,
        ← Path.eq_child_of_parent parent (by simpa using named)]
      exact live file (by simp)
    · cases stepped
      exact empty

theorem Registry.require_eq_ok {r : Registry} {name : String} {p : Manifest}
    (found : r.require name = .ok p) : p ∈ r.projects ∧ p.name = name := by
  unfold Registry.require Registry.get? at found
  split at found
  · rename_i q lookup
    cases found
    exact ⟨List.mem_of_find?_eq_some lookup, by simpa using List.find?_some lookup⟩
  · cases found

/-- A move that passes its checks goes below the root and, for a project off the root, not
further into the project itself; it overlaps the root of no other project off the root; its
destination holds nothing unless it is the project's own root; and a new name is no other
project's. -/
theorem validateMove_eq_ok {r : Registry} {project : Manifest} {D : Path} {n : String}
    (valid : validateMove t r project D n = .ok ()) :
    D.isRoot = false ∧
      (project.root.isRoot = false → D ≠ project.root → D.startsWith project.root = false) ∧
      (∀ other ∈ r.projects, other.name ≠ project.name → other.root.isRoot = false →
        D.startsWith other.root = false ∧ other.root.startsWith D = false) ∧
      (D ≠ project.root → t.contains D = false) ∧
      (n ≠ project.name → r.get? n = none) := by
  unfold validateMove at valid
  dsimp only at valid
  split at valid
  · simp at valid
  rename_i notRoot
  split at valid
  · simp at valid
  rename_i notInside
  rw [except_bind_eq_ok] at valid
  obtain ⟨_, looped, valid⟩ := valid
  split at valid
  · simp at valid
  rename_i free
  split at valid
  · simp at valid
  rename_i unique
  have apart := (forIn_checks_eq_ok
    (fun other : Manifest => !other.root.isRoot && (D.startsWith other.root || other.root.startsWith D))
    (fun x h => by simp [h]) (fun x h => by simp [h])).mp looped
  refine ⟨by simpa using notRoot, fun off moved => by simpa [off, moved] using notInside,
    fun other member renamed off => ?_, fun moved => by simpa [moved] using free,
    fun renamed => by simpa [renamed] using unique⟩
  simpa [off] using apart other (List.mem_filter.mpr ⟨member, by simpa using renamed⟩)

/-- Whether a path moves with the project rooted at `root`: it lies below the root, or for the
project at the workspace root in one of the configured root entries, and below no project nested
under the root. -/
def MovesWith (settings : Config.WorkspaceSettings) (r : Registry) (root f : Path) : Prop :=
  (if root.isRoot then ∃ n ∈ settings.rootProjectEntries, f.first = some n
    else f.startsWith root = true) ∧
  ∀ m ∈ r.projectsBelow root, f.startsWith m.root = false

/-- The plan of a move of `project` to `D`: the old root is the project's and the new root `D`;
every entry lies below the old root and no path lies below two of them; and a live path of the
tree is one that moves exactly when it moves with the project. -/
structure Move.Plans (settings : Config.WorkspaceSettings) (r : Registry) (t : StagedTree)
    (project : Manifest) (D : Path) (mv : Move) : Prop where
  oldRoot : mv.oldRoot = project.root
  newRoot : mv.newRoot = D
  entriesBelow : ∀ e ∈ mv.entries, e.startsWith mv.oldRoot = true
  apart : mv.entries.Pairwise fun a b => ∀ f : Path, f.startsWith a = true → f.startsWith b = false
  contains : ∀ f, (t.view f).isSome → (mv.contains f = true ↔ MovesWith settings r project.root f)

/-- Planning the move of a project on a consistent tree plans it as `Move.Plans` says. A nested
project moves its root as one entry; the project at the workspace root moves the children of the
root that the settings name, which the listing gives once each. -/
theorem Move.plan_plans (consistent : t.Consistent) {r : Registry} {config : Config.ToolConfig}
    {name newName : String} {project : Manifest} {D : Path} {mv : Move}
    (required : r.require name = .ok project)
    (planned : Move.plan r t config name newName D = .ok mv) :
    Move.Plans config.workspace r t project D mv := by
  unfold Move.plan at planned
  rw [required, except_ok_bind] at planned
  have excluded : ∀ f : Path, (!((r.projectsBelow project.root).map (·.root)).any (f.startsWith ·))
      = true ↔ ∀ m ∈ r.projectsBelow project.root, f.startsWith m.root = false := by
    simp
  cases rootCase : project.root.isRoot
  · simp only [rootCase, Bool.false_eq_true, if_false, except_pure, except_ok_bind,
      Except.ok.injEq] at planned
    subst planned
    refine ⟨rfl, rfl, by simp [Path.startsWith_iff], by simp, fun f _ => ?_⟩
    simp [Move.contains, MovesWith, rootCase]
  · obtain ⟨names, kids, sorted, leads⟩ := consistent.children_spec project.root
    simp only [rootCase, if_true, kids, except_ok_bind, except_pure, Except.ok.injEq] at planned
    subst planned
    have named : ∀ n, (project.root.child n).fileName = some n := fun n => by
      simp [Path.fileName]
    refine ⟨rfl, rfl, fun e _ => ?_, ?_, fun f live => ?_⟩
    · simp [Path.startsWith_iff, show project.root.segments = [] by simpa [Path.isRoot] using rootCase]
    · refine List.Pairwise.filter _ (List.pairwise_map.mpr (sorted.imp fun {a b} less f under => ?_))
      rw [Path.startsWith_child_of_isRoot rootCase] at under
      rw [← Bool.not_eq_true, Path.startsWith_child_of_isRoot rootCase, under]
      simpa using ne_of_lt less
    · simp only [Move.contains, Bool.and_eq_true, excluded, MovesWith, rootCase, if_true,
        List.any_eq_true, List.mem_filter, List.mem_map]
      constructor
      · rintro ⟨⟨e, ⟨⟨n, -, rfl⟩, entry⟩, under⟩, outside⟩
        exact ⟨⟨n, by simpa [named] using entry, (Path.startsWith_child_of_isRoot rootCase).mp under⟩,
          outside⟩
      · rintro ⟨⟨n, entry, first⟩, outside⟩
        refine ⟨⟨project.root.child n, ⟨⟨n, (leads n).mpr ⟨f, live, ?_⟩, rfl⟩, by simpa [named] using entry⟩,
          (Path.startsWith_child_of_isRoot rootCase).mpr first⟩, outside⟩
        exact Path.startsWith_iff.mp ((Path.startsWith_child_of_isRoot rootCase).mpr first)

theorem Move.files_spec {u : StagedTree} (consistent : u.Consistent) {mv : Move}
    (apart : mv.entries.Pairwise fun a b => ∀ f : Path, f.startsWith a = true → f.startsWith b = false) :
    ∃ files, mv.files u = .ok files ∧ files.Nodup ∧
      ∀ f, f ∈ files ↔ (u.view f).isSome ∧ mv.contains f = true := by
  unfold Move.files
  refine flatMapM_of_ok (fun e ys => ys.Nodup ∧
    ∀ f, f ∈ ys ↔ (u.view f).isSome ∧ f.startsWith e = true ∧ mv.contains f = true)
    (fun e _ => ?_) fun groups inputs related => ⟨?_, fun f => ?_⟩
  · obtain ⟨ws, walked, nodup, listed⟩ := consistent.walkFiles_spec e
    exact ⟨ws.filter mv.contains, by simp [walked], nodup.filter _,
      fun f => by simp [List.mem_filter, listed, and_assoc]⟩
  · have groupsApart : groups.Pairwise fun g h => ∀ f : Path,
        f.startsWith g.1 = true → f.startsWith h.1 = false := by
      rw [← inputs, List.pairwise_map] at apart
      exact apart
    refine List.nodup_flatMap.mpr ⟨fun g member => (related g member).1, ?_⟩
    refine groupsApart.imp_of_mem fun {g h} inG inH split f inGFiles inHFiles => ?_
    have underG := (((related g inG).2 f).mp inGFiles).2.1
    have underH := (((related h inH).2 f).mp inHFiles).2.1
    simp [split f underG] at underH
  · simp only [List.mem_flatMap]
    constructor
    · rintro ⟨g, member, inFiles⟩
      obtain ⟨live, -, moving⟩ := ((related g member).2 f).mp inFiles
      exact ⟨live, moving⟩
    · rintro ⟨live, moving⟩
      have inEntry : ∃ e ∈ mv.entries, f.startsWith e = true := by
        simp only [Move.contains, Bool.and_eq_true, List.any_eq_true] at moving
        exact moving.1
      obtain ⟨e, entry, under⟩ := inEntry
      rw [← inputs] at entry
      obtain ⟨g, member, rfl⟩ := List.mem_map.mp entry
      exact ⟨g, member, ((related g member).2 f).mpr ⟨live, under, moving⟩⟩

/-- What planning a move settles on a consistent tree: the registry it found and the project it
moves; the plan of the move to the destination parsed from the request; a destination that holds
nothing unless the project stays where it is; and the project's manifest, live at its root. -/
structure Planned (config : Config.ToolConfig) (request : RelocateRequest) (t : StagedTree)
    (r : Registry) (project : Manifest) (plan : RelocationPlan) : Prop where
  built : Registry.build t config = .ok r
  required : r.require request.project = .ok project
  parsed : Path.parse request.destination = .ok plan.move.newRoot
  plans : Move.Plans config.workspace r t project plan.move.newRoot plan.move
  fresh : plan.move.newRoot ≠ plan.move.oldRoot → t.contains plan.move.newRoot = false
  manifestPath : plan.manifestPath = project.root.child config.workspace.manifestFile
  manifestLive : (t.view plan.manifestPath).isSome

theorem planRelocation_planned {config : Config.ToolConfig} {request : RelocateRequest}
    {plan : RelocationPlan} (consistent : t.Consistent)
    (planned : planRelocation config request t = .ok plan) :
    ∃ r project, Planned config request t r project plan := by
  simp only [planRelocation, except_bind_eq_ok] at planned
  obtain ⟨r, built, project, required, D, parsed, _, valid, _, _, _, _, mv, moved, _, _, mp,
    located, made⟩ := planned
  simp only [except_pure, Except.ok.injEq] at made
  subst made
  have again : r.require project.name = .ok project := by
    rw [(Registry.require_eq_ok required).2]
    exact required
  have plans := Move.plan_plans consistent again moved
  have manifest := Registry.build_manifests built project (Registry.require_eq_ok required).1
  have plainName : Path.PlainSegment config.workspace.manifestFile :=
    (consistent.plain_of_live manifest).1 _ (by simp)
  have located : mp = project.root.child config.workspace.manifestFile := by
    rw [Manifest.path, Manifest.pathIn, Path.join_plain plainName, Except.ok.injEq] at located
    exact located.symm
  subst located
  refine ⟨r, project, built, required, plans.newRoot ▸ parsed,
    ⟨plans.oldRoot, rfl, plans.entriesBelow, plans.apart, plans.contains⟩, fun moved => ?_, rfl,
    manifest⟩
  simp only [plans.newRoot, plans.oldRoot] at moved ⊢
  exact (validateMove_eq_ok valid).2.2.2.1 moved

end Monorepo.Workspace
