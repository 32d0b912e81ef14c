import Mathlib
import Monorepo.Proofs.Json.Pointer
import Monorepo.Proofs.Outcome
import Monorepo.Proofs.Tree.Listing
import Monorepo.Workspace.Reference

/-!
# Where the reference search finds references

The search of a move gathers, in this order, the references of the path mappings, those in the
target options of the other projects' manifests, those by project name, and those found file by
file. Each kind stands in files of its own and at places of its own: a path mapping in the
mappings file below `compilerOptions`, a target option in another project's manifest below
`targets`, a name in the workspace configuration at `defaultProject` or in another project's
manifest at an index of `implicitDependencies`, and a reference found in a file in that file,
which moves, is a TypeScript configuration or is a source file.

An implicit dependency that the search finds is rewritten as `renamedDependency` says: the
moving project's name, unless it begins with `!`, and its name behind a `!` become the new name.
-/

namespace Monorepo.Workspace

open Json StagedTree

namespace Location

/-- A place in a JSON document below its top-level key `key`; a span is in no document. -/
def Below (key : String) : Location → Prop
  | .span _ _ => False
  | .jsonValue pointer => PointsBelow key pointer
  | .jsonKey pointer => PointsBelow key pointer

end Location

/-- An implicit dependency once the project `old` is called `new`: the name itself, unless it
begins with `!`, and the name behind a `!` become the new name; every other entry stays. -/
def renamedDependency (old new : String) : Value → Value
  | .string d =>
    if d = "!" ++ old then .string ("!" ++ new)
    else if d = old ∧ ¬old.startsWith "!" then .string new
    else .string d
  | v => v

@[simp] theorem renamedDependency_self (name : String) (v : Value) :
    renamedDependency name name v = v := by
  cases v with
  | string d =>
    simp only [renamedDependency]
    split_ifs with excluded named
    · rw [excluded]
    · rw [named.1]
    · rfl
  | _ => rfl

theorem afterPrefix_bang (d : String) :
    (d.startsWith "!" = true ∧ ∃ rest, d = "!" ++ rest ∧ afterPrefix d "!" = some rest) ∨
      (d.startsWith "!" = false ∧ afterPrefix d "!" = none) := by
  cases starts : d.startsWith "!" with
  | false => exact .inr ⟨rfl, by simp [afterPrefix, starts]⟩
  | true =>
    have one : "!".length = 1 := by decide
    refine .inl ⟨rfl, String.ofList (d.toList.drop 1), ?_, by simp [afterPrefix, starts, one]⟩
    obtain ⟨tail, spelled⟩ := String.startsWith_string_iff.mp starts
    rw [← String.toList_inj]
    simp [← spelled]

theorem startsWith_bang (x : String) : ("!" ++ x).startsWith "!" = true :=
  String.startsWith_string_iff.mpr (by simp)

namespace ReferenceIndex

variable {ix : ReferenceIndex} {t : StagedTree} {m : Move}

/-- The references of the path mappings are in the mappings file, below `compilerOptions`. Both
loops only append: a target's reference at its index below its key, and a renamed key at
`/compilerOptions/paths`. -/
theorem pathMappingReferences_below {refs : List Reference}
    (found : ix.pathMappingReferences m = .ok refs) :
    ∀ r ∈ refs, some r.sourceFile = ix.mappings.file ∧ r.location.Below "compilerOptions" := by
  have plain : PlainToken "compilerOptions" := ⟨by decide, by decide⟩
  have keyBelow : (Location.jsonKey "/compilerOptions/paths").Below "compilerOptions" := by
    rw [show "/compilerOptions/paths" = "/" ++ "compilerOptions" ++ "/" ++ "paths" by decide]
    exact pointsBelow_cons plain
  have valueBelow : ∀ k : String, ∀ i : Nat, (Location.jsonValue
      ("/compilerOptions/paths/" ++ escapeToken k ++ "/" ++ toString i)).Below "compilerOptions" := by
    intro k i
    rw [show "/compilerOptions/paths/" ++ escapeToken k ++ "/" ++ toString i =
      "/" ++ "compilerOptions" ++ "/" ++ ("paths/" ++ escapeToken k ++ "/" ++ toString i) by
        simp only [String.append_assoc]; rfl]
    exact pointsBelow_cons plain
  unfold pathMappingReferences at found
  split at found
  · rename_i file located
    simp only at found
    obtain ⟨refs', looped, done⟩ := except_bind_eq_ok.mp found
    cases done
    refine forIn_invariant (fun rs => ∀ r ∈ rs, some r.sourceFile = ix.mappings.file ∧
      r.location.Below "compilerOptions") (fun entry _ b res holds body => ?_) (by simp) looped
    obtain ⟨s, inner, body⟩ := except_bind_eq_ok.mp body
    have innerHolds : ∀ r ∈ s.1, some r.sourceFile = ix.mappings.file ∧
        r.location.Below "compilerOptions" := by
      refine forIn_invariant (fun s => ∀ r ∈ s.1, some r.sourceFile = ix.mappings.file ∧
        r.location.Below "compilerOptions") (fun target _ b res holds body => ?_) holds inner
      repeat' split at body
      all_goals
        simp only [except_pure, except_bind_eq_ok, Except.ok.injEq] at body
      all_goals
        (first
          | obtain rfl := body
          | obtain ⟨_, _, rfl⟩ := body)
        (first
          | exact holds
          | intro r member
            rcases List.mem_append.mp member with member | same
            · exact holds r member
            · rw [List.mem_singleton.mp same]
              exact ⟨located.symm, valueBelow _ _⟩)
    repeat' split at body
    all_goals
      simp only [except_pure, except_bind_eq_ok, except_throw, Except.ok.injEq] at body
    all_goals
      (first
        | obtain ⟨_, failed, _⟩ := body; cases failed
        | obtain rfl := body
          (first
            | exact innerHolds
            | intro r member
              rcases List.mem_append.mp member with member | same
              · exact innerHolds r member
              · rw [List.mem_singleton.mp same]
                exact ⟨located.symm, keyBelow⟩))
  · cases found
    simp

theorem targetOptionReferences_below {refs : List Reference}
    (found : ix.targetOptionReferences t m = .ok refs) :
    ∀ r ∈ refs, ∃ project ∈ ix.registry.projects, project.name ≠ m.oldName ∧
      project.path ix.config.workspace = .ok r.sourceFile ∧ r.location.Below "targets" := by
  intro r member
  obtain ⟨project, listed, found, searched, inFound⟩ := mem_of_flatMapM_eq_ok found member
  obtain ⟨inRegistry, other⟩ := List.mem_filter.mp listed
  obtain ⟨manifest, located, searched⟩ := except_bind_eq_ok.mp searched
  obtain ⟨document, -, searched⟩ := except_bind_eq_ok.mp searched
  split at searched
  · rename_i targets _
    simp only [except_pure, Except.ok.injEq] at searched
    subst searched
    obtain ⟨⟨pointer, value⟩, inStrings, made⟩ := List.mem_filterMap.mp inFound
    obtain ⟨new, -, rfl⟩ := Option.map_eq_some_iff.mp made
    exact ⟨project, inRegistry, by simpa using other, located,
      Value.strings_pointsBelow ⟨by decide, by decide⟩ targets _ inStrings⟩
  · cases searched
    simp at inFound

theorem implicitDependencyReference_eq_some {manifest : Path} {dep : Value} {i : Nat}
    {r : Reference} (made : implicitDependencyReference m manifest (dep, i) = some r) :
    r.sourceFile = manifest ∧ r.location = .jsonValue ("/implicitDependencies/" ++ toString i) ∧
      dep = .string r.oldValue ∧ renamedDependency m.oldName m.newName dep = .string r.newValue := by
  cases dep with
  | string d =>
    unfold implicitDependencyReference at made
    rcases afterPrefix_bang d with ⟨-, rest, rfl, after⟩ | ⟨starts, after⟩
    · simp only [after] at made
      split at made
      · rename_i named
        cases made
        simp [renamedDependency, beq_iff_eq.mp named]
      · cases made
    · simp only [after] at made
      split at made
      · rename_i named
        cases made
        have named : d = m.oldName := beq_iff_eq.mp named
        have excluded : d ≠ "!" ++ m.oldName := fun same => by
          rw [same, startsWith_bang] at starts
          cases starts
        have oldStarts : m.oldName.startsWith "!" = false := named ▸ starts
        simp only [renamedDependency, if_neg excluded]
        rw [if_pos ⟨named, by simp [oldStarts]⟩]
        simp
      · cases made
  | _ => cases made

theorem implicitDependencyReference_eq_none {manifest : Path} {dep : Value} {i : Nat}
    (missing : implicitDependencyReference m manifest (dep, i) = none) :
    renamedDependency m.oldName m.newName dep = dep := by
  cases dep with
  | string d =>
    unfold implicitDependencyReference at missing
    rcases afterPrefix_bang d with ⟨-, rest, rfl, after⟩ | ⟨starts, after⟩
    · simp only [after] at missing
      split at missing
      · cases missing
      · rename_i other
        have other : rest ≠ m.oldName := fun same => other (by simp [same])
        have notOld : "!" ++ rest ≠ m.oldName ∨ m.oldName.startsWith "!" = true := by
          by_cases same : "!" ++ rest = m.oldName
          · exact .inr (same ▸ startsWith_bang rest)
          · exact .inl same
        simp only [renamedDependency]
        rw [if_neg (fun same => other ((String.append_right_inj "!").mp same))]
        rcases notOld with notOld | starts
        · rw [if_neg (fun both => notOld both.1)]
        · rw [if_neg (fun both => both.2 starts)]
    · simp only [after] at missing
      split at missing
      · cases missing
      · rename_i other
        have other : d ≠ m.oldName := fun same => other (by simp [same])
        have excluded : d ≠ "!" ++ m.oldName := fun same => by
          rw [same, startsWith_bang] at starts
          cases starts
        simp [renamedDependency, excluded, other]
  | _ => rfl

/-- The references by name: the default project of the workspace configuration when it names the
moving project, then for each other project, in registry order, the implicit dependencies of its
manifest that name it. -/
theorem nameReferences_eq_ok {refs : List Reference} (found : ix.nameReferences t m = .ok refs) :
    ∃ (first : List Reference) (groups : List (Manifest × List Reference)),
      refs = first ++ groups.flatMap (·.2) ∧
      (ix.workspace.defaultProject = some m.oldName →
        ∃ W, WorkspaceFile.path ix.config.workspace = .ok W ∧
          first = [{ sourceFile := W, kind := .defaultProject, oldValue := m.oldName,
                     newValue := m.newName, location := .jsonValue "/defaultProject" }]) ∧
      (ix.workspace.defaultProject ≠ some m.oldName → first = []) ∧
      groups.map (·.1) = ix.registry.projects.filter (·.name != m.oldName) ∧
      ∀ g ∈ groups, ∃ manifest document, g.1.path ix.config.workspace = .ok manifest ∧
        t.readJson manifest = .ok document ∧
        (∀ r ∈ g.2, r.sourceFile = manifest ∧ ∃ pointer, r.location = .jsonValue pointer) ∧
        ∀ deps, document.field? "implicitDependencies" = some (.array deps) →
          g.2 = deps.zipIdx.filterMap (implicitDependencyReference m manifest) := by
  unfold nameReferences at found
  obtain ⟨first, firstOk, found⟩ := except_bind_eq_ok.mp found
  obtain ⟨rest, restOk, done⟩ := except_bind_eq_ok.mp found
  cases done
  obtain ⟨groups, inputs, each, rfl⟩ := flatMapM_eq_ok restOk
  refine ⟨first, groups, rfl, fun named => ?_, fun other => ?_, inputs, fun g member => ?_⟩
  · rw [show (ix.workspace.defaultProject == some m.oldName) = true by simp [named]] at firstOk
    obtain ⟨W, located, done⟩ := except_bind_eq_ok.mp firstOk
    exact ⟨W, located, (Except.ok.inj done).symm⟩
  · rw [show (ix.workspace.defaultProject == some m.oldName) = false by simp [other]] at firstOk
    exact (Except.ok.inj firstOk).symm
  · obtain ⟨manifest, located, searched⟩ := except_bind_eq_ok.mp (each g member)
    obtain ⟨document, read, searched⟩ := except_bind_eq_ok.mp searched
    refine ⟨manifest, document, located, read, fun r inGroup => ?_, fun deps listed => ?_⟩
    · split at searched
      · rw [← Except.ok.inj searched] at inGroup
        obtain ⟨⟨dep, i⟩, -, made⟩ := List.mem_filterMap.mp inGroup
        obtain ⟨inFile, located, -⟩ := implicitDependencyReference_eq_some made
        exact ⟨inFile, _, located⟩
      · rw [← Except.ok.inj searched] at inGroup
        simp at inGroup
    · rw [listed] at searched
      exact (Except.ok.inj searched).symm

theorem jsonFileReferences_in {file : Path} {moving : Bool} {refs : List Reference}
    (found : ix.jsonFileReferences t file m moving = .ok refs) :
    ∀ r ∈ refs, r.sourceFile = file ∧
      (moving = true ∨ ∃ name, file.fileName = some name ∧ name.startsWith "tsconfig" = true) := by
  intro r member
  unfold jsonFileReferences at found
  dsimp only at found
  split at found <;> split at found
  · cases found
    simp at member
  · rename_i name named searched
    obtain ⟨document, -, done⟩ := except_bind_eq_ok.mp found
    cases done
    obtain ⟨⟨pointer, value⟩, -, made⟩ := List.mem_filterMap.mp member
    split at made
    · cases made
    obtain ⟨new, -, rfl⟩ := Option.map_eq_some_iff.mp made
    refine ⟨rfl, ?_⟩
    cases moving
    · exact .inr ⟨name, named, by simpa using searched⟩
    · exact .inl rfl
  · cases found
    simp at member
  · rename_i searched
    obtain ⟨document, -, done⟩ := except_bind_eq_ok.mp found
    cases done
    obtain ⟨⟨pointer, value⟩, -, made⟩ := List.mem_filterMap.mp member
    split at made
    · cases made
    obtain ⟨new, -, rfl⟩ := Option.map_eq_some_iff.mp made
    exact ⟨rfl, .inl (by simpa using searched)⟩

theorem sourceFileReferences_in {file : Path} {moving external : Bool} {refs : List Reference}
    (found : ix.sourceFileReferences t file m moving external = .ok refs) :
    ∀ r ∈ refs, r.sourceFile = file := by
  intro r member
  unfold sourceFileReferences at found
  split at found
  · split at found
    · obtain ⟨specs, -, done⟩ := except_bind_eq_ok.mp found
      cases done
      obtain ⟨spec, -, made⟩ := List.mem_filterMap.mp member
      obtain ⟨new, -, rfl⟩ := Option.map_eq_some_iff.mp made
      rfl
    · cases found
      simp at member
  · cases found
    simp at member

theorem fileReferences_in {external : Bool} {file : Path} {refs : List Reference}
    (found : ix.fileReferences t m external file = .ok refs) :
    ∀ r ∈ refs, r.sourceFile = file ∧ (m.contains file = true ∨
      (∃ name, file.fileName = some name ∧ name.startsWith "tsconfig" = true) ∨
      ∃ ext, file.extension = some ext ∧ ix.config.isSourceExtension ext = true) := by
  intro r member
  unfold fileReferences at found
  dsimp only at found
  split at found
  · cases found
    simp at member
  split at found
  · obtain ⟨inFile, why⟩ := jsonFileReferences_in found r member
    exact ⟨inFile, why.elim .inl (.inr ∘ .inl)⟩
  · rename_i ext _ named
    split at found
    · exact ⟨sourceFileReferences_in found r member, .inr (.inr ⟨ext, named, by assumption⟩)⟩
    · cases found
      simp at member
  · cases found
    simp at member

/-- The search gives the references of the path mappings and of target options when it searches
outside the project, then those by name when the project is renamed, then those found in the
files of the walk, each in a live file. -/
theorem find_eq_ok {external : Bool} {refs : List Reference} (found : ix.find t m external = .ok refs) :
    ∃ mapped options named inFiles, refs = mapped ++ options ++ named ++ inFiles ∧
      (bif external then ix.pathMappingReferences m else pure []) = .ok mapped ∧
      (bif external then ix.targetOptionReferences t m else pure []) = .ok options ∧
      (bif m.isRename then ix.nameReferences t m else pure []) = .ok named ∧
      ∀ r ∈ inFiles, (t.view r.sourceFile).isSome ∧ (m.contains r.sourceFile = true ∨
        (∃ name, r.sourceFile.fileName = some name ∧ name.startsWith "tsconfig" = true) ∨
        ∃ ext, r.sourceFile.extension = some ext ∧ ix.config.isSourceExtension ext = true) := by
  unfold find at found
  obtain ⟨mapped, mappedOk, found⟩ := except_bind_eq_ok.mp found
  obtain ⟨options, optionsOk, found⟩ := except_bind_eq_ok.mp found
  obtain ⟨named, namedOk, found⟩ := except_bind_eq_ok.mp found
  obtain ⟨files, walked, found⟩ := except_bind_eq_ok.mp found
  obtain ⟨inFiles, searched, done⟩ := except_bind_eq_ok.mp found
  cases done
  refine ⟨mapped, options, named, inFiles, rfl, mappedOk, optionsOk, namedOk, fun r member => ?_⟩
  obtain ⟨file, listed, found, searchedFile, inFound⟩ := mem_of_flatMapM_eq_ok searched member
  obtain ⟨inFile, why⟩ := fileReferences_in searchedFile r inFound
  rw [inFile]
  exact ⟨live_of_walkFilesWhere walked listed, why⟩

end ReferenceIndex

end Monorepo.Workspace
