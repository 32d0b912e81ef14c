import Mathlib
import Monorepo.Proofs.Json.Readers
import Monorepo.Proofs.Workspace.Plan
import Monorepo.Proofs.Workspace.ReferenceEdits
import Monorepo.Proofs.Workspace.WriteBack

/-!
# Project names across a relocation

A relocation that renames a project rewrites the references to its name, which it read on the tree
before the move: the workspace configuration's `defaultProject` and the entries of the other
projects' `implicitDependencies`. Neither file moves, the references in them are JSON values at
their own pointers, and no other reference the search finds touches what lies under those keys.
So afterwards the default project is the new name where it was the old one, and each entry of
another project's implicit dependencies is as `renamedDependency` says; without a new name both
stay as they were.

This holds when the two kinds of file are found only by name: the workspace configuration is a
file at the root other than a manifest, which no move of the root project takes along, and
neither file is searched for relative paths or module specifiers as a TypeScript configuration
or a source file.
-/

namespace Monorepo.Workspace

open Json StagedTree Utf8

variable {t : StagedTree}

theorem Registry.build_reads {config : Config.ToolConfig} {r : Registry}
    (built : Registry.build t config = .ok r) :
    (∀ m ∈ r.projects, Manifest.read t m.root config.workspace = .ok m) ∧
      (r.projects.map (·.name)).Nodup := by
  unfold Registry.build at built
  rw [except_bind_eq_ok] at built
  obtain ⟨files, -, folded⟩ := built
  have empty : (∀ m ∈ ({} : Registry).projects, Manifest.read t m.root config.workspace = .ok m) ∧
      (({} : Registry).projects.map (·.name)).Nodup := by simp
  generalize ({} : Registry) = acc at folded empty
  induction files generalizing acc with
  | nil =>
    cases folded
    exact empty
  | cons file rest ih =>
    rw [List.foldlM_cons, except_bind_eq_ok] at folded
    obtain ⟨acc', stepped, folded⟩ := folded
    refine ih acc' folded ?_
    split at stepped
    · cases stepped
      exact empty
    split at stepped
    · rw [except_bind_eq_ok] at stepped
      obtain ⟨project, read, added⟩ := stepped
      split at added
      · cases added
      rename_i fresh
      cases added
      refine ⟨fun m member => ?_, ?_⟩
      · rcases List.mem_append.mp member with old | new
        · exact empty.1 m old
        rw [List.mem_singleton.mp new, Manifest.read_root read]
        exact read
      · rw [List.map_append, List.nodup_append]
        refine ⟨empty.2, by simp, fun a inOld b inNew same => ?_⟩
        obtain ⟨m, member, rfl⟩ := List.mem_map.mp inOld
        rw [List.map_singleton, List.mem_singleton] at inNew
        exact absurd (List.find?_eq_none.mp fresh m member) (by simp [same, inNew])
    · cases stepped
      exact empty

theorem Registry.eq_of_root {config : Config.ToolConfig} {r : Registry}
    (built : Registry.build t config = .ok r) {p q : Manifest} (inP : p ∈ r.projects)
    (inQ : q ∈ r.projects) (same : p.root = q.root) : p = q := by
  have readP := (Registry.build_reads built).1 p inP
  rw [same, (Registry.build_reads built).1 q inQ] at readP
  exact (Except.ok.inj readP).symm

theorem Manifest.path_of_plain {settings : Config.WorkspaceSettings} (m : Manifest)
    (plain : Path.PlainSegment settings.manifestFile) :
    m.path settings = .ok (m.root.child settings.manifestFile) := by
  rw [Manifest.path, Manifest.pathIn, Path.join_plain plain]

theorem Move.plan_names {r : Registry} {config : Config.ToolConfig} {name newName : String}
    {D : Path} {mv : Move} (planned : Move.plan r t config name newName D = .ok mv) :
    mv.oldName = name ∧ mv.newName = newName := by
  unfold Move.plan at planned
  obtain ⟨project, -, planned⟩ := except_bind_eq_ok.mp planned
  dsimp only at planned
  split at planned
  · obtain ⟨kids, -, planned⟩ := except_bind_eq_ok.mp planned
    cases planned
    exact ⟨rfl, rfl⟩
  · cases planned
    exact ⟨rfl, rfl⟩

/-- Planning a relocation searches for references with the index of the registry, the workspace
configuration and the path mappings it read, for the move from the requested project's name to
the new one. -/
theorem planRelocation_index {config : Config.ToolConfig} {request : RelocateRequest}
    {plan : RelocationPlan} (planned : planRelocation config request t = .ok plan) :
    ∃ r ws mappings, Registry.build t config = .ok r ∧
      WorkspaceFile.read t config.workspace = .ok ws ∧
      plan.move.oldName = request.project ∧
      plan.move.newName = request.newName.getD request.project ∧
      ReferenceIndex.find { registry := r, workspace := ws, mappings, config } t plan.move
        request.updateReferences = .ok plan.references := by
  simp only [planRelocation, except_bind_eq_ok] at planned
  obtain ⟨r, built, project, required, D, -, _, -, ws, readWs, mappings, -, mv, moved, refs, found,
    mp, -, made⟩ := planned
  simp only [except_pure, Except.ok.injEq] at made
  subst made
  obtain ⟨oldName, newName⟩ := Move.plan_names moved
  have named := (Registry.require_eq_ok required).2
  exact ⟨r, ws, mappings, built, readWs, by simp [oldName, named], by simp [newName, named], found⟩

theorem WorkspaceFile.path_of_plain {settings : Config.WorkspaceSettings}
    (plain : Path.PlainSegment settings.workspaceFile) :
    WorkspaceFile.path settings = .ok (Path.root.child settings.workspaceFile) := by
  rw [WorkspaceFile.path, Path.parse, Path.join_plain plain]

theorem WorkspaceFile.decode_object {ms : Members} {w : WorkspaceFile} (nodup : ms.keys.Nodup)
    (read : WorkspaceFile.decode (.object ms) = .ok w) :
    match ms.get? "defaultProject" with
    | some v => optionalString v = .ok w.defaultProject
    | none => w.defaultProject = none := by
  simp only [WorkspaceFile.decode] at read
  refine foldlM_field (fun s k v s' stepped => ?_) nodup read
  dsimp only at stepped
  split at stepped
  · refine .of_ne (by decide) ?_
    split at stepped
    · cases stepped
      rfl
    · obtain ⟨ns, -, stepped⟩ := except_bind_eq_ok.mp stepped
      cases stepped
      rfl
    · cases stepped
  · obtain ⟨o, found, stepped⟩ := except_bind_eq_ok.mp stepped
    cases stepped
    exact .of_key found
  · rename_i _ other
    cases stepped
    exact .of_ne other rfl

theorem WorkspaceFile.read_defaultProject {settings : Config.WorkspaceSettings} {w : WorkspaceFile}
    {D : Value} {name : String} (plain : Path.PlainSegment settings.workspaceFile)
    (read : WorkspaceFile.read t settings = .ok w)
    (found : t.readJson (Path.root.child settings.workspaceFile) = .ok D)
    (named : w.defaultProject = some name) : D.field? "defaultProject" = some (.string name) := by
  unfold WorkspaceFile.read readJsonAs at read
  rw [WorkspaceFile.path_of_plain plain, except_ok_bind, isFile_of_readJson found] at read
  simp only [Bool.not_true, Bool.false_eq_true, if_false, found, except_ok_bind] at read
  split at read
  · rename_i decoded
    cases read
    cases D with
    | object ms =>
      have nodup : (Members.keys ms).Nodup := by
        cases readJson_keysOnce found with
        | object nodup _ => exact nodup
      have field := WorkspaceFile.decode_object nodup decoded
      rw [named] at field
      split at field
      · rename_i v member
        have back := optionalString_back field
        simp only [WrittenBack] at back
        simp [Value.field?, Value.asObject?, member, back]
      · cases field
    | _ => simp [WorkspaceFile.decode] at decoded
  · cases read

theorem startsWith_dir_of_live (layered : t.Layered) {root d : Path} {n mf : String}
    (manifest : (t.view (root.child mf)).isSome) (live : (t.view (d.child n)).isSome)
    (inside : (d.child n).startsWith root = true) : d.startsWith root = true := by
  rw [Path.startsWith_iff] at inside ⊢
  rcases List.prefix_concat_iff.mp inside with whole | below
  · have same : root = d.child n := Path.eq_of_segments whole
    subst same
    have above := layered.view_above_live manifest
      (Path.isBelow_of_prefix (List.prefix_append _ _) (by simp [Path.child]))
    simp [above] at live
  · exact below

theorem not_movesWith_manifest (layered : t.Layered) {settings : Config.WorkspaceSettings}
    {r : Registry} {project q : Manifest} (member : q ∈ r.projects) (other : q.root ≠ project.root)
    (moving : (t.view (project.root.child settings.manifestFile)).isSome)
    (live : (t.view (q.root.child settings.manifestFile)).isSome) :
    ¬MovesWith settings r project.root (q.root.child settings.manifestFile) := by
  rintro ⟨inside, outside⟩
  have under : q.root.startsWith project.root = true := by
    split at inside
    · rename_i atRoot
      rw [Path.startsWith_iff, show project.root.segments = [] by simpa [Path.isRoot] using atRoot]
      exact List.nil_prefix
    · exact startsWith_dir_of_live layered moving live inside
  have nested : q ∈ r.projectsBelow project.root := by
    simp [Registry.projectsBelow, member, other, under]
  have self : (q.root.child settings.manifestFile).startsWith q.root = true :=
    Path.startsWith_iff.mpr (List.prefix_append _ _)
  simp [outside q nested] at self

/-- The workspace configuration does not move with a project whose manifest is live when the root
project's entries leave it out: a nested project lies below some directory, which the
configuration, a file at the root, is not below. -/
theorem not_movesWith_workspaceFile (layered : t.Layered) {settings : Config.WorkspaceSettings}
    {r : Registry} {project : Manifest} (kept : settings.workspaceFile ∉ settings.rootProjectEntries)
    (moving : (t.view (project.root.child settings.manifestFile)).isSome)
    (live : (t.view (Path.root.child settings.workspaceFile)).isSome) :
    ¬MovesWith settings r project.root (Path.root.child settings.workspaceFile) := by
  rintro ⟨inside, -⟩
  split at inside
  · obtain ⟨n, entry, first⟩ := inside
    have named : n = settings.workspaceFile := by simpa [Path.first, Path.child, Path.root] using first.symm
    exact kept (named ▸ entry)
  · rename_i off
    have atRoot := Path.startsWith_iff.mp (startsWith_dir_of_live layered moving live inside)
    have empty : project.root.segments = [] := List.prefix_nil.mp atRoot
    simp [Path.isRoot, empty] at off

/-- A live file that does not move shows, after a relocation, what rewriting the references made
of it: no file of the move leaves it, and none lands on it, since a file lands where it was when
the root stays and otherwise below the new root, which held nothing. -/
theorem MovesExactly.view_of_stays (consistent : t.Consistent) {settings : Config.WorkspaceSettings}
    {mv : Move} {sources : List Path} {manifestPath : Path} {edited t' : StagedTree} {files : List Path}
    (moves : MovesExactly settings mv sources manifestPath t edited t' files)
    (fresh : mv.newRoot ≠ mv.oldRoot → t.contains mv.newRoot = false) {p : Path}
    (live : (t.view p).isSome) (stays : mv.contains p = false) : t'.view p = edited.view p := by
  have outside : p ∉ files := fun member => by
    simp [((moves.mem_files p).mp member).2] at stays
  have unreached : ∀ f ∈ files, mv.relocate f ≠ some p := by
    intro f member lands
    obtain ⟨-, rest, rfl, landed⟩ := Move.relocate_eq_some lands
    by_cases same : mv.newRoot = mv.oldRoot
    · rw [same] at landed
      exact outside (landed ▸ member)
    · have held := (consistent.contains_iff (p := mv.newRoot)).mpr
        (.inr ⟨p, live, by rw [landed]; exact List.prefix_append _ _⟩)
      rw [fresh same] at held
      cases held
  rw [moves.view p (unreached _ moves.manifest), Move.movedView_of_unreached unreached,
    if_neg outside]

/-- A file name that the search of files passes over unless the file moves: it names no TypeScript
configuration and has no source extension. -/
def UnsearchedName (config : Config.ToolConfig) (name : String) : Prop :=
  name.startsWith "tsconfig" = false ∧
    ∀ ext, (Path.root.child name).extension = some ext → config.isSourceExtension ext = false

theorem Path.extension_child (d : Path) (n : String) :
    (d.child n).extension = (Path.root.child n).extension := by
  simp [Path.extension, Path.fileName, Path.child, Path.root]

theorem Path.child_ne_of_ne {d d' : Path} {a b : String} (other : a ≠ b) : d.child a ≠ d'.child b := by
  intro same
  have last := congrArg (·.segments.getLast?) same
  simp [Path.child] at last
  exact other last

theorem Path.child_ne_child {d d' : Path} {a : String} (other : d ≠ d') : d.child a ≠ d'.child a := by
  intro same
  have segments := congrArg (·.segments) same
  simp only [Path.child, List.append_cancel_right_eq] at segments
  exact other (Path.eq_of_segments segments)

theorem Location.Below.inDocument {l : Location} {key : String} (below : l.Below key) :
    l.InDocument := by
  cases l with
  | span _ _ => exact below.elim
  | jsonValue _ => trivial
  | jsonKey _ => trivial

theorem filter_flatMap_of_nodup {α β : Type} {groups : List (α × List β)} {p : β → Bool}
    {g : α × List β} (nodup : (groups.map (·.1)).Nodup) (member : g ∈ groups)
    (own : ∀ x ∈ g.2, p x = true) (others : ∀ g' ∈ groups, g'.1 ≠ g.1 → ∀ x ∈ g'.2, p x = false) :
    (groups.flatMap (·.2)).filter p = g.2 := by
  induction groups with
  | nil => cases member
  | cons h rest ih =>
    rw [List.map_cons, List.nodup_cons] at nodup
    rw [List.flatMap_cons, List.filter_append]
    rcases List.mem_cons.mp member with rfl | later
    · rw [List.filter_eq_self.mpr own, List.filter_eq_nil_iff.mpr, List.append_nil]
      intro x inRest
      obtain ⟨g', inG', inItems⟩ := List.mem_flatMap.mp inRest
      have apart : g'.1 ≠ g.1 := fun same => nodup.1 (same ▸ List.mem_map_of_mem inG')
      simp [others g' (List.mem_cons_of_mem _ inG') apart x inItems]
    · have apart : h.1 ≠ g.1 := fun same => nodup.1 (same ▸ List.mem_map_of_mem later)
      rw [List.filter_eq_nil_iff.mpr fun x inH => by simp [others h List.mem_cons_self apart x inH],
        List.nil_append]
      exact ih nodup.2 later fun g' inG' => others g' (List.mem_cons_of_mem _ inG')

namespace ReferenceIndex

variable {ix : ReferenceIndex} {m : Move}

theorem nameReferences_values {refs : List Reference} (found : ix.nameReferences t m = .ok refs) :
    ∀ r ∈ refs, ∃ pointer, r.location = .jsonValue pointer := by
  obtain ⟨first, groups, rfl, named, unnamed, -, each⟩ := nameReferences_eq_ok found
  intro r member
  rcases List.mem_append.mp member with inFirst | inGroups
  · by_cases default : ix.workspace.defaultProject = some m.oldName
    · obtain ⟨W, -, rfl⟩ := named default
      rw [List.mem_singleton.mp inFirst]
      exact ⟨_, rfl⟩
    · simp [unnamed default] at inFirst
  · obtain ⟨g, inG, inItems⟩ := List.mem_flatMap.mp inGroups
    obtain ⟨_, _, -, -, values, -⟩ := each g inG
    exact (values r inItems).2

/-- The references of the path mappings, searched only for a project that leaves the workspace,
are below `compilerOptions`. -/
theorem configuredMappings_below {external : Bool} {mapped : List Reference}
    (mappedOk : (bif external then ix.pathMappingReferences m else pure []) = .ok mapped) :
    ∀ r ∈ mapped, r.location.Below "compilerOptions" := by
  cases external
  · cases mappedOk
    simp
  · rw [cond_true] at mappedOk
    exact fun r member => (pathMappingReferences_below mappedOk r member).2

/-- The references in target options lie below `targets` of some project's manifest. -/
theorem configuredOptions_in {external : Bool} {options : List Reference}
    (optionsOk : (bif external then ix.targetOptionReferences t m else pure []) = .ok options) :
    ∀ r ∈ options, ∃ q ∈ ix.registry.projects,
      q.path ix.config.workspace = .ok r.sourceFile ∧ r.location.Below "targets" := by
  cases external
  · cases optionsOk
    simp
  · rw [cond_true] at optionsOk
    intro r member
    obtain ⟨q, inRegistry, -, located, below⟩ := targetOptionReferences_below optionsOk r member
    exact ⟨q, inRegistry, located, below⟩

/-- The references by name, searched only for a rename, are values. -/
theorem renamedReferences_values {named : List Reference}
    (namedOk : (bif m.isRename then ix.nameReferences t m else pure []) = .ok named) :
    ∀ r ∈ named, ∃ pointer, r.location = .jsonValue pointer := by
  cases renamed : m.isRename
  · rw [renamed, cond_false] at namedOk
    cases namedOk
    simp
  · rw [renamed, cond_true] at namedOk
    exact nameReferences_values namedOk

/-- The references a search puts outside the files it walks are in documents: the path mappings,
the target options and the references by name. -/
theorem inDocument_of_configured {external : Bool} {mapped options named : List Reference}
    (mappedOk : (bif external then ix.pathMappingReferences m else pure []) = .ok mapped)
    (optionsOk : (bif external then ix.targetOptionReferences t m else pure []) = .ok options)
    (namedOk : (bif m.isRename then ix.nameReferences t m else pure []) = .ok named) :
    ∀ r ∈ mapped ++ options ++ named, r.location.InDocument := by
  intro r member
  rcases List.mem_append.mp member with member | inNamed
  · rcases List.mem_append.mp member with inMapped | inOptions
    · exact (configuredMappings_below mappedOk r inMapped).inDocument
    · exact (configuredOptions_in optionsOk r inOptions).choose_spec.2.2.inDocument
  · obtain ⟨pointer, located⟩ := renamedReferences_values namedOk r inNamed
    rw [located]
    trivial

/-- What the search of a move puts in a file `d.child n` that stays and whose name the search of
files passes over: references of the path mappings below `compilerOptions`, references in target
options below `targets` of some project's manifest, and references by name, which are values.
Every reference in the file is in its document. -/
theorem find_in_unsearched {external : Bool} {refs : List Reference}
    (found : ix.find t m external = .ok refs) {d : Path} {n : String}
    (unsearched : UnsearchedName ix.config n) (stays : m.contains (d.child n) = false) :
    ∃ mapped options named,
      (∀ r ∈ mapped, r.location.Below "compilerOptions") ∧
      (∀ r ∈ options, ∃ q ∈ ix.registry.projects,
        q.path ix.config.workspace = .ok r.sourceFile ∧ r.location.Below "targets") ∧
      (bif m.isRename then ix.nameReferences t m else pure []) = .ok named ∧
      (∀ r ∈ named, ∃ pointer, r.location = .jsonValue pointer) ∧
      refs.filter (·.sourceFile == d.child n) =
        (mapped ++ options ++ named).filter (·.sourceFile == d.child n) ∧
      ∀ r ∈ refs, r.sourceFile = d.child n → r.location.InDocument := by
  obtain ⟨mapped, options, named, inFiles, rfl, mappedOk, optionsOk, namedOk, inFilesIn⟩ :=
    find_eq_ok found
  have notInFiles : ∀ r ∈ inFiles, r.sourceFile ≠ d.child n := by
    intro r member same
    obtain ⟨-, why⟩ := inFilesIn r member
    rw [same] at why
    rcases why with moving | ⟨name, named, tsconfig⟩ | ⟨ext, extended, source⟩
    · simp [stays] at moving
    · have : name = n := by simpa [Path.fileName, Path.child] using named.symm
      rw [this, unsearched.1] at tsconfig
      cases tsconfig
    · rw [Path.extension_child] at extended
      rw [unsearched.2 ext extended] at source
      cases source
  refine ⟨mapped, options, named, configuredMappings_below mappedOk,
    configuredOptions_in optionsOk, namedOk, renamedReferences_values namedOk, ?_, ?_⟩
  · have none : inFiles.filter (·.sourceFile == d.child n) = [] :=
      List.filter_eq_nil_iff.mpr fun r member => by simp [notInFiles r member]
    rw [List.filter_append, none, List.append_nil]
  · intro r member same
    rcases List.mem_append.mp member with configured | inFile
    · exact inDocument_of_configured mappedOk optionsOk namedOk r configured
    · exact absurd same (notInFiles r inFile)

end ReferenceIndex

/-- The document a file read as `D` is written as once the references in it are applied: the
values first, then the keys. -/
def editedDocument (refs : List Reference) (file : Path) (D : Value) : Value :=
  (refs.filter (·.sourceFile == file)).foldl Reference.applyKey
    ((refs.filter (·.sourceFile == file)).foldl Reference.applyValue D)

/-- A JSON file read as `D` before a run is afterwards as it was, and `D'` is `D`, or written as
the document `D'`. -/
def RewrittenAs (t t' : StagedTree) (file : Path) (D D' : Value) : Prop :=
  t'.view file = t.view file ∧ D' = D ∨ t'.view file = some (encode (jsonText D'))

theorem MovesExactly.rewrittenAs (consistent : t.Consistent) {settings : Config.WorkspaceSettings}
    {mv : Move} {refs : List Reference}
    {manifestPath : Path} {edited t' : StagedTree} {files : List Path}
    (moves : MovesExactly settings mv (refs.map (·.sourceFile)) manifestPath t edited t' files)
    (applied : (applyReferences refs).runOn t = (.ok (), edited))
    (fresh : mv.newRoot ≠ mv.oldRoot → t.contains mv.newRoot = false) {F : Path} {D : Value}
    (stays : mv.contains F = false) (json : ∀ r ∈ refs, r.sourceFile = F → r.location.InDocument)
    (found : t.readJson F = .ok D) : RewrittenAs t t' F D (editedDocument refs F D) := by
  rw [RewrittenAs, moves.view_of_stays consistent fresh (readJson_live consistent found) stays]
  obtain ⟨absent, present⟩ := applyReferences_view_of_json consistent json applied
  by_cases some : ∃ r ∈ refs, r.sourceFile = F
  · obtain ⟨D₀, read, written⟩ := present some
    rw [found, Except.ok.injEq] at read
    subst read
    exact .inr written
  · have none : ∀ r ∈ refs, r.sourceFile ≠ F := fun r member same => some ⟨r, member, same⟩
    have empty : refs.filter (·.sourceFile == F) = [] :=
      List.filter_eq_nil_iff.mpr fun r member => by simp [none r member]
    exact .inl ⟨absent none, by simp [editedDocument, empty]⟩

theorem foldl_frame_then_values {frame own : List Reference} {k : String}
    (named : indexToken k = none) (below : ∀ r ∈ frame, ∃ h ≠ k, r.location.Below h)
    (values : ∀ r ∈ own, ∃ pointer, r.location = .jsonValue pointer) (D : Value) :
    ((frame ++ own).foldl Reference.applyKey ((frame ++ own).foldl Reference.applyValue D)).atTokens [k] =
      (own.foldl Reference.applyValue (frame.foldl Reference.applyValue D)).atTokens [k] := by
  rw [List.foldl_append, List.foldl_append, foldl_applyKey_of_values _ values,
    foldl_applyKey_below _ below named]

namespace ReferenceIndex

variable {ix : ReferenceIndex} {m : Move}

/-- In a file `d.child n` that stays under a name the search of files passes over, what lies under
a key other than `compilerOptions` and `targets` once the references are applied is what the
references by name in the file make of it. -/
theorem editedDocument_atTokens {external : Bool} {refs : List Reference}
    (found : ix.find t m external = .ok refs) {d : Path} {n : String}
    (unsearched : UnsearchedName ix.config n) (stays : m.contains (d.child n) = false) {k : String}
    (named : indexToken k = none) (notMapped : "compilerOptions" ≠ k) (notTargets : "targets" ≠ k)
    (D : Value) :
    ∃ byName D₁, (bif m.isRename then ix.nameReferences t m else pure []) = .ok byName ∧
      D₁.atTokens [k] = D.atTokens [k] ∧
      (editedDocument refs (d.child n) D).atTokens [k] =
        ((byName.filter (·.sourceFile == d.child n)).foldl Reference.applyValue D₁).atTokens [k] := by
  obtain ⟨mapped, options, byName, mappedBelow, optionsIn, namedOk, values, filtered, -⟩ :=
    find_in_unsearched found unsearched stays
  have below : ∀ r ∈ (mapped ++ options).filter (·.sourceFile == d.child n),
      ∃ h ≠ k, r.location.Below h := by
    intro r member
    rcases List.mem_append.mp (List.mem_of_mem_filter member) with inMapped | inOptions
    · exact ⟨_, notMapped, mappedBelow r inMapped⟩
    · obtain ⟨_, _, _, under⟩ := optionsIn r inOptions
      exact ⟨_, notTargets, under⟩
  refine ⟨byName, _, namedOk, foldl_applyValue_below D below named, ?_⟩
  rw [editedDocument, filtered, List.filter_append (mapped ++ options),
    foldl_frame_then_values named below fun r member => values r (List.mem_of_mem_filter member)]

/-- The references a search puts in the workspace configuration, a plain file at the root that
stays under a name the search of files passes over and is no manifest, set its default project to
the new name when the move renames the project named there, and leave it otherwise. -/
theorem find_defaultProject {external : Bool} {refs : List Reference}
    (found : ix.find t m external = .ok refs)
    (plain : Path.PlainSegment ix.config.workspace.workspaceFile)
    (plainManifest : Path.PlainSegment ix.config.workspace.manifestFile)
    (apart : ix.config.workspace.workspaceFile ≠ ix.config.workspace.manifestFile)
    (unsearched : UnsearchedName ix.config ix.config.workspace.workspaceFile)
    (stays : m.contains (Path.root.child ix.config.workspace.workspaceFile) = false) {D : Value}
    (holds : ix.workspace.defaultProject = some m.oldName →
      D.field? "defaultProject" = some (.string m.oldName)) :
    (editedDocument refs (Path.root.child ix.config.workspace.workspaceFile) D).field?
        "defaultProject" =
      if m.isRename ∧ ix.workspace.defaultProject = some m.oldName then some (.string m.newName)
      else D.field? "defaultProject" := by
  have named : indexToken "defaultProject" = none := by decide
  obtain ⟨byName, D₁, namedOk, framed, edited⟩ :=
    editedDocument_atTokens found unsearched stays named (by decide) (by decide) D
  rw [Value.field?_eq_atTokens named, Value.field?_eq_atTokens named, edited]
  cases renamed : m.isRename
  · rw [renamed, cond_false] at namedOk
    cases namedOk
    simp [framed]
  rw [renamed, cond_true] at namedOk
  obtain ⟨first, groups, rfl, default, notDefault, -, each⟩ := nameReferences_eq_ok namedOk
  have offGroups : (groups.flatMap (·.2)).filter
      (·.sourceFile == Path.root.child ix.config.workspace.workspaceFile) = [] := by
    refine List.filter_eq_nil_iff.mpr fun r member => ?_
    obtain ⟨g, inG, inItems⟩ := List.mem_flatMap.mp member
    obtain ⟨manifest, _, located, -, values, -⟩ := each g inG
    rw [Manifest.path_of_plain g.1 plainManifest, Except.ok.injEq] at located
    rw [(values r inItems).1, ← located]
    simpa using Path.child_ne_of_ne apart.symm
  rw [List.filter_append, offGroups, List.append_nil]
  by_cases isDefault : ix.workspace.defaultProject = some m.oldName
  · obtain ⟨W, located, rfl⟩ := default isDefault
    rw [WorkspaceFile.path_of_plain plain, Except.ok.injEq] at located
    subst located
    have oldThere : D₁.atTokens ["defaultProject"] = some (.string m.oldName) := by
      rw [framed, ← Value.field?_eq_atTokens named]
      exact holds isDefault
    have spelled : "/defaultProject" = "/" ++ "defaultProject" := by decide
    rw [List.filter_singleton, beq_self_eq_true, cond_true, List.foldl_cons, List.foldl_nil,
      Reference.applyValue_member D₁ ⟨by decide, by decide⟩ (by rw [← spelled]) oldThere,
      Value.atTokens_updateTokens_self D₁ named, oldThere, if_pos ⟨rfl, isDefault⟩]
    rfl
  · rw [notDefault isDefault, if_neg fun both => isDefault both.2]
    simp [framed]

/-- The references a search puts in the manifest of another project, a file that stays under a
name the search of files passes over, rename the entries of its implicit dependencies as
`renamedDependency` says. Only that project's references by name are in its manifest: the
registry holds one project at each root. -/
theorem find_implicitDependencies {external : Bool} {refs : List Reference}
    (found : ix.find t m external = .ok refs) (built : Registry.build t ix.config = .ok ix.registry)
    (plain : Path.PlainSegment ix.config.workspace.workspaceFile)
    (plainManifest : Path.PlainSegment ix.config.workspace.manifestFile)
    (apart : ix.config.workspace.workspaceFile ≠ ix.config.workspace.manifestFile)
    (unsearched : UnsearchedName ix.config ix.config.workspace.manifestFile) {q : Manifest}
    (member : q ∈ ix.registry.projects) (other : q.name ≠ m.oldName)
    (stays : m.contains (q.root.child ix.config.workspace.manifestFile) = false)
    {D : Value} {deps : List Value}
    (read : t.readJson (q.root.child ix.config.workspace.manifestFile) = .ok D)
    (listed : D.field? "implicitDependencies" = some (.array deps)) :
    (editedDocument refs (q.root.child ix.config.workspace.manifestFile) D).field?
        "implicitDependencies" = some (.array (deps.map (renamedDependency m.oldName m.newName))) := by
  have named : indexToken "implicitDependencies" = none := by decide
  obtain ⟨byName, D₁, namedOk, framed, edited⟩ :=
    editedDocument_atTokens found unsearched stays named (by decide) (by decide) D
  rw [Value.field?_eq_atTokens named, edited]
  rw [← Value.field?_eq_atTokens named D, listed] at framed
  cases renamed : m.isRename
  · rw [renamed, cond_false] at namedOk
    cases namedOk
    have same : m.oldName = m.newName := by simpa [Move.isRename] using renamed
    rw [same, List.map_id'' (renamedDependency_self m.newName)]
    simpa using framed
  rw [renamed, cond_true] at namedOk
  obtain ⟨first, groups, rfl, default, notDefault, inputs, each⟩ := nameReferences_eq_ok namedOk
  have offFirst : first.filter (·.sourceFile == q.root.child ix.config.workspace.manifestFile) = [] := by
    by_cases isDefault : ix.workspace.defaultProject = some m.oldName
    · obtain ⟨W, located, rfl⟩ := default isDefault
      rw [WorkspaceFile.path_of_plain plain, Except.ok.injEq] at located
      subst located
      simpa using Path.child_ne_of_ne apart
    · rw [notDefault isDefault]
      rfl
  have listedQ : q ∈ groups.map (·.1) := by
    rw [inputs]
    exact List.mem_filter.mpr ⟨member, by simpa using other⟩
  obtain ⟨g, inG, rfl⟩ := List.mem_map.mp listedQ
  obtain ⟨manifest, document, located, readDoc, values, implicit⟩ := each g inG
  rw [Manifest.path_of_plain g.1 plainManifest, Except.ok.injEq] at located
  subst located
  rw [read, Except.ok.injEq] at readDoc
  subst readDoc
  have nodup : (groups.map (·.1)).Nodup := by
    rw [inputs]
    exact ((Registry.build_reads built).2.of_map _).filter _
  have others : ∀ g' ∈ groups, g'.1 ≠ g.1 → ∀ r ∈ g'.2,
      (r.sourceFile == g.1.root.child ix.config.workspace.manifestFile) = false := by
    intro g' inG' apartG r inItems
    obtain ⟨manifest', _, located', -, values', -⟩ := each g' inG'
    rw [Manifest.path_of_plain g'.1 plainManifest, Except.ok.injEq] at located'
    have inRegistry : g'.1 ∈ ix.registry.projects := by
      have listed' : g'.1 ∈ groups.map (·.1) := List.mem_map_of_mem inG'
      rw [inputs] at listed'
      exact (List.mem_filter.mp listed').1
    have roots : g'.1.root ≠ g.1.root := fun same =>
      apartG (Registry.eq_of_root built inRegistry member same)
    rw [(values' r inItems).1, ← located']
    simpa using Path.child_ne_child roots
  rw [List.filter_append, offFirst, List.nil_append,
    filter_flatMap_of_nodup nodup inG (fun r inItems => by simp [(values r inItems).1]) others,
    implicit deps listed]
  simpa using foldl_applyValue_implicit deps [] D₁ (by simpa using framed)

end ReferenceIndex

/-- Settings under which the workspace configuration and the manifests are found only by name:
the configuration is a plain file at the root other than the manifests, the root project's
entries leave it out, and neither file name is searched as a TypeScript configuration or a
source file. -/
structure NameFiles (config : Config.ToolConfig) : Prop where
  workspacePlain : Path.PlainSegment config.workspace.workspaceFile
  apart : config.workspace.workspaceFile ≠ config.workspace.manifestFile
  kept : config.workspace.workspaceFile ∉ config.workspace.rootProjectEntries
  workspaceUnsearched : UnsearchedName config config.workspace.workspaceFile
  manifestUnsearched : UnsearchedName config config.workspace.manifestFile

/-- The names that point to projects after a relocation of `request` took `t` to `t'`. Let `P` be
the requested project and `N` its new name (`P` itself when the request gives none). The
workspace configuration, read as `D` before, is written as a document whose default project is
`N` when `P` is renamed and was the default, and is otherwise the one `D` had; and the manifest
of every other project of the registry, read as `D` before, is written as a document whose
implicit dependencies are those of `D`, each renamed as `renamedDependency` says: `P`, unless it
begins with `!`, and `!P` become `N` and `!N`, and every other entry keeps its value and place. A
file that is not written is as it was. -/
def NamesFollow (config : Config.ToolConfig) (request : RelocateRequest) (t t' : StagedTree) :
    Prop :=
  (∃ ws, WorkspaceFile.read t config.workspace = .ok ws ∧
    ∀ D, t.readJson (Path.root.child config.workspace.workspaceFile) = .ok D →
      ∃ D', RewrittenAs t t' (Path.root.child config.workspace.workspaceFile) D D' ∧
        D'.field? "defaultProject" =
          if request.newName.getD request.project ≠ request.project ∧
              ws.defaultProject = some request.project
          then some (.string (request.newName.getD request.project))
          else D.field? "defaultProject") ∧
  ∃ r, Registry.build t config = .ok r ∧
    ∀ q ∈ r.projects, q.name ≠ request.project →
      ∀ D, t.readJson (q.root.child config.workspace.manifestFile) = .ok D →
        ∃ D', RewrittenAs t t' (q.root.child config.workspace.manifestFile) D D' ∧
          ∀ deps, D.field? "implicitDependencies" = some (.array deps) →
            D'.field? "implicitDependencies" = some (.array (deps.map
              (renamedDependency request.project (request.newName.getD request.project))))

/-- A relocation keeps the names that point to projects valid, where the workspace configuration
and the manifests are found only by name. -/
theorem relocate_renames_name_references {config : Config.ToolConfig}
    {request : RelocateRequest} {report : RelocationReport} {t' : StagedTree}
    (consistent : t.Consistent) (names : NameFiles config)
    (relocated : (relocate config request).runOn t = (.ok report, t')) :
    NamesFollow config request t t' := by
  rw [runOn_relocate] at relocated
  cases planned : planRelocation config request t with
  | error e => simp [planned] at relocated
  | ok plan =>
  simp only [planned] at relocated
  obtain ⟨r, project, facts⟩ := planRelocation_planned consistent planned
  obtain ⟨edited, files, applied, moves, -, -⟩ :=
    executeRelocation_movesExactly consistent facts relocated
  obtain ⟨r', ws, mappings, built, readWs, oldName, newName, found⟩ := planRelocation_index planned
  have same : r' = r := Except.ok.inj (built.symm.trans facts.built)
  rw [same] at built found
  have plainManifest : Path.PlainSegment config.workspace.manifestFile :=
    (consistent.plain_of_live facts.manifestLive).1 _ (by simp [facts.manifestPath])
  have moving : (t.view (project.root.child config.workspace.manifestFile)).isSome :=
    facts.manifestPath ▸ facts.manifestLive
  have staysOf : ∀ F, (t.view F).isSome → ¬MovesWith config.workspace r project.root F →
      plan.move.contains F = false := fun F live off => by
    cases moved : plan.move.contains F
    · rfl
    · exact absurd ((facts.plans.contains F live).mp moved) off
  refine ⟨⟨ws, readWs, fun D read => ?_⟩, r, built, fun q member other D read => ?_⟩
  · have live := readJson_live consistent read
    have stays := staysOf _ live
      (not_movesWith_workspaceFile consistent.toLayered names.kept moving live)
    obtain ⟨-, -, -, -, -, -, -, -, json⟩ :=
      ReferenceIndex.find_in_unsearched found names.workspaceUnsearched stays
    refine ⟨_, moves.rewrittenAs consistent applied facts.fresh stays json read, ?_⟩
    rw [ReferenceIndex.find_defaultProject found names.workspacePlain plainManifest names.apart
      names.workspaceUnsearched stays fun isDefault =>
        WorkspaceFile.read_defaultProject names.workspacePlain readWs read isDefault]
    simp only [Move.isRename, oldName, newName, bne_iff_ne, ne_eq, eq_comm (a := request.project)]
  · have live := readJson_live consistent read
    have elsewhere : q.root ≠ project.root := fun same =>
      other ((Registry.eq_of_root built member (Registry.require_eq_ok facts.required).1 same) ▸
        (Registry.require_eq_ok facts.required).2)
    have stays := staysOf _ live
      (not_movesWith_manifest consistent.toLayered member elsewhere moving live)
    obtain ⟨-, -, -, -, -, -, -, -, json⟩ :=
      ReferenceIndex.find_in_unsearched found names.manifestUnsearched stays
    refine ⟨_, moves.rewrittenAs consistent applied facts.fresh stays json read, fun deps listed => ?_⟩
    rw [ReferenceIndex.find_implicitDependencies found built names.workspacePlain plainManifest
      names.apart names.manifestUnsearched member (oldName ▸ other) stays read listed, oldName,
      newName]

/-- The project `x`, the workspace's default project, moves to `z` as `c`, beside the project `y`;
the one reference by name is the default project's. -/
theorem relocate_renames_name_references_of_default_project :
    (
      { disk := ⟨[([.text "w"], .file (encode "\x7b\"defaultProject\":\"x\"\x7d")),
          ([.text "x"], .dir), ([.text "x", .text "p"], .file (encode "\x7b\x7d")),
          ([.text "y"], .dir), ([.text "y", .text "p"], .file (encode "\x7b\x7d"))]⟩ } : StagedTree).Consistent ∧
      NameFiles
        { workspace := { manifestFile := "p", workspaceFile := "w", tsconfigCandidates := [],
                         ignoredDirs := [], sourceExtensions := [], rootProjectEntries := [] } } ∧
      (relocate
        { workspace := { manifestFile := "p", workspaceFile := "w", tsconfigCandidates := [],
                         ignoredDirs := [], sourceExtensions := [], rootProjectEntries := [] } }
        { project := "x", destination := "z", newName := some "c" }).runOn
        { disk := ⟨[([.text "w"], .file (encode "\x7b\"defaultProject\":\"x\"\x7d")),
            ([.text "x"], .dir), ([.text "x", .text "p"], .file (encode "\x7b\x7d")),
            ([.text "y"], .dir), ([.text "y", .text "p"], .file (encode "\x7b\x7d"))]⟩ } =
        (.ok { project := "x", newName := "c", oldRoot := ⟨["x"]⟩, newRoot := ⟨["z"]⟩,
               filesMoved := 1,
               references := [{ sourceFile := ⟨["w"]⟩, kind := .defaultProject, oldValue := "x",
                                newValue := "c", location := .jsonValue "/defaultProject" }] },
          ((relocate
            { workspace := { manifestFile := "p", workspaceFile := "w", tsconfigCandidates := [],
                             ignoredDirs := [], sourceExtensions := [], rootProjectEntries := [] } }
            { project := "x", destination := "z", newName := some "c" }).runOn
            { disk := ⟨[([.text "w"], .file (encode "\x7b\"defaultProject\":\"x\"\x7d")),
                ([.text "x"], .dir), ([.text "x", .text "p"], .file (encode "\x7b\x7d")),
                ([.text "y"], .dir), ([.text "y", .text "p"], .file (encode "\x7b\x7d"))]⟩ }).2) ∧
      NamesFollow
        { workspace := { manifestFile := "p", workspaceFile := "w", tsconfigCandidates := [],
                         ignoredDirs := [], sourceExtensions := [], rootProjectEntries := [] } }
        { project := "x", destination := "z", newName := some "c" }
        { disk := ⟨[([.text "w"], .file (encode "\x7b\"defaultProject\":\"x\"\x7d")),
            ([.text "x"], .dir), ([.text "x", .text "p"], .file (encode "\x7b\x7d")),
            ([.text "y"], .dir), ([.text "y", .text "p"], .file (encode "\x7b\x7d"))]⟩ }
        ((relocate
          { workspace := { manifestFile := "p", workspaceFile := "w", tsconfigCandidates := [],
                           ignoredDirs := [], sourceExtensions := [], rootProjectEntries := [] } }
          { project := "x", destination := "z", newName := some "c" }).runOn
          { disk := ⟨[([.text "w"], .file (encode "\x7b\"defaultProject\":\"x\"\x7d")),
              ([.text "x"], .dir), ([.text "x", .text "p"], .file (encode "\x7b\x7d")),
              ([.text "y"], .dir), ([.text "y", .text "p"], .file (encode "\x7b\x7d"))]⟩ }).2 := by
  have consistent : (
      { disk := ⟨[([.text "w"], .file (encode "\x7b\"defaultProject\":\"x\"\x7d")),
          ([.text "x"], .dir), ([.text "x", .text "p"], .file (encode "\x7b\x7d")),
          ([.text "y"], .dir), ([.text "y", .text "p"], .file (encode "\x7b\x7d"))]⟩ } : StagedTree).Consistent :=
    consistent_fresh ⟨⟨by decide, by decide⟩, by decide, by decide⟩ {}
  have plain : Path.Plain ⟨["w"]⟩ := by decide
  have names : NameFiles
      { workspace := { manifestFile := "p", workspaceFile := "w", tsconfigCandidates := [],
                       ignoredDirs := [], sourceExtensions := [], rootProjectEntries := [] } } :=
    ⟨plain "w" (List.mem_singleton_self _), by decide, by decide, ⟨by decide, fun _ _ => rfl⟩,
      ⟨by decide, fun _ _ => rfl⟩⟩
  refine ⟨consistent, names, ?relocated, relocate_renames_name_references consistent names ?relocated⟩
  exact Prod.ext (by cbv) rfl

/-- A project whose name begins with `!` is not found under that name among implicit
dependencies: for the project `!a` renamed to `c`, the entry `!a` reads as the exclusion of `a`,
so it yields no reference and keeps its value. -/
theorem bang_named_dependency_kept :
    ReferenceIndex.implicitDependencyReference
        { oldName := "!a", newName := "c", oldRoot := ⟨["a"]⟩, newRoot := ⟨["c"]⟩,
          entries := [⟨["a"]⟩], excluded := [], outputDir := "dist" }
        ⟨["b", "p"]⟩ (.string "!a", 0) = none := by
  cbv

end Monorepo.Workspace
