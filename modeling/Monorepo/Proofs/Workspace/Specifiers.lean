import Mathlib
import Monorepo.Proofs.Workspace.Names
import Monorepo.Proofs.Workspace.Substitution
import Monorepo.Proofs.Workspace.Relink

/-!
# A relocation rewrites module specifiers in place

The search of a relocation makes one reference per module specifier of a source file whose text
the move changes, at the specifier's range, and applying the references splices those ranges.
Where the scanner lists a file's specifiers in file order, each holding its text (`SpecifiersFrom`),
the references the search makes of them lie in the text one after another (`SpansFrom`), and the
file, at its place after the move, holds its text with each reported range replaced by the new
text. What that text names from the file's new directory is what `Relinks` says of it.
-/

namespace Monorepo.Workspace

open StagedTree TreeStep

/-- Specifiers of `bytes` in file order from `pos` on: each range lies in the text and holds the
specifier's text, and starts where the one before it ends (or later) and after the one before it
starts. -/
def SpecifiersFrom (bytes : Utf8.Bytes) : Nat → List Script.Specifier → Prop
  | _, [] => True
  | pos, spec :: rest => pos ≤ spec.start ∧ spec.start ≤ spec.stop ∧ spec.stop ≤ bytes.length ∧
      (bytes.drop spec.start).take (spec.stop - spec.start) = Utf8.encode spec.value ∧
      SpecifiersFrom bytes (max spec.stop (spec.start + 1)) rest

/-- References made of some specifiers, each at its specifier's range and holding its text, lie in
the text as the specifiers do. -/
theorem SpecifiersFrom.spansFrom {bytes : Utf8.Bytes} {make : Script.Specifier → Option Reference}
    (made : ∀ spec r, make spec = some r →
      r.location = .span spec.start spec.stop ∧ r.oldValue = spec.value) :
    ∀ {pos : Nat} {specs : List Script.Specifier}, SpecifiersFrom bytes pos specs →
      SpansFrom bytes pos (specs.filterMap make)
  | _, [], _ => trivial
  | pos, spec :: rest, ⟨first, ordered, inText, holds, later⟩ => by
    rw [List.filterMap_cons]
    cases making : make spec with
    | none =>
      exact (SpecifiersFrom.spansFrom made later).mono
        (first.trans ((Nat.le_succ _).trans (le_max_right _ _)))
    | some r =>
      obtain ⟨located, old⟩ := made spec r making
      refine ⟨spec.start, spec.stop, located, first, ordered, inText, ?_,
        SpecifiersFrom.spansFrom made later⟩
      rw [old]
      exact holds

theorem Reference.isSpan_of_inDocument {r : Reference} (inDocument : r.location.InDocument) :
    r.isSpan = false := by
  unfold Reference.isSpan
  split
  · rename_i located
    rw [located] at inDocument
    exact inDocument.elim
  · rfl

theorem readToString_congr {t u : StagedTree} (layered : t.Layered) (layered' : u.Layered) {p : Path}
    (same : u.view p = t.view p) (live : (t.view p).isSome) :
    u.readToString p = t.readToString p := by
  obtain ⟨c, found⟩ := Option.isSome_iff_exists.mp live
  simp only [StagedTree.readToString, layered.read_of_live found,
    layered'.read_of_live (same.trans found)]

namespace ReferenceIndex

variable {ix : ReferenceIndex} {t : StagedTree} {m : Move}

/-- The references of a source file lie in its text as the scanner's specifiers do. -/
theorem sourceFileReferences_spansFrom {file : Path} {moving external : Bool}
    {refs : List Reference} {language : Script.Language} {content : String}
    {specs : List Script.Specifier}
    (lang : file.extension.bind Script.Language.ofExtension = some language)
    (read : t.readToString file = .ok content)
    (scanned : Script.scanSpecifiers language content file.render = .ok specs)
    (ordered : SpecifiersFrom (Utf8.encode content) 0 specs)
    (found : ix.sourceFileReferences t file m moving external = .ok refs) :
    SpansFrom (Utf8.encode content) 0 refs := by
  unfold sourceFileReferences at found
  simp only [lang, read, scanned, except_ok_bind, except_pure, Except.ok.injEq] at found
  rw [← found]
  refine SpecifiersFrom.spansFrom (fun spec r making => ?_) ordered
  obtain ⟨n, -, made⟩ := Option.map_eq_some_iff.mp making
  rw [← made]
  exact ⟨rfl, rfl⟩

/-- The references `fileReferences` gives a file whose extension is not `json`, when it gives
any, are the ones `sourceFileReferences` makes of it. -/
theorem fileReferences_of_source {external : Bool} {F : Path} {ext : String}
    {refs : List Reference} (source : F.extension = some ext) (notJson : ext ≠ "json")
    (found : ix.fileReferences t m external F = .ok refs) (nonempty : refs ≠ []) :
    ix.sourceFileReferences t F m (m.contains F) external = .ok refs := by
  unfold fileReferences at found
  dsimp only at found
  -- a file the search passes over, and a source extension not configured, give no reference
  split at found
  · exact absurd (Except.ok.inj found).symm nonempty
  · rw [source] at found
    split at found
    · rename_i isJson
      exact absurd (Option.some.inj isJson) notJson
    · split at found
      · exact found
      · exact absurd (Except.ok.inj found).symm nonempty
    · rename_i noExtension
      cases noExtension

/-- The references a search gives in a source file whose references are all spans are the ones
`sourceFileReferences` makes of it. The walk lists the file once, and every reference outside
the walked files is in a document. -/
theorem find_source_file (consistent : t.Consistent) {external : Bool} {refs : List Reference}
    (found : ix.find t m external = .ok refs) {F : Path} {ext : String}
    (source : F.extension = some ext) (notJson : ext ≠ "json")
    (spansOnly : ∀ r ∈ refs, r.sourceFile = F → r.isSpan = true)
    (referenced : ∃ r ∈ refs, r.sourceFile = F) :
    ix.sourceFileReferences t F m (m.contains F) external = .ok (refs.filter (·.sourceFile == F)) := by
  unfold find at found
  obtain ⟨mapped, mappedOk, found⟩ := except_bind_eq_ok.mp found
  obtain ⟨options, optionsOk, found⟩ := except_bind_eq_ok.mp found
  obtain ⟨named, namedOk, found⟩ := except_bind_eq_ok.mp found
  obtain ⟨files, walked, found⟩ := except_bind_eq_ok.mp found
  obtain ⟨inFiles, searched, done⟩ := except_bind_eq_ok.mp found
  cases done
  have configuredApart : ∀ r ∈ mapped ++ options ++ named, r.sourceFile ≠ F := by
    intro r member inF
    have spanning := spansOnly r (List.mem_append_left _ member) inF
    rw [Reference.isSpan_of_inDocument
      (inDocument_of_configured mappedOk optionsOk namedOk r member)] at spanning
    cases spanning
  obtain ⟨groups, keys, each, rfl⟩ := flatMapM_eq_ok searched
  have nodup : (groups.map (·.1)).Nodup := keys ▸ consistent.walkFilesWhere_nodup walked
  have own : ∀ g ∈ groups, ∀ x ∈ g.2, x.sourceFile = g.1 :=
    fun g inG x member => (fileReferences_in (each g inG) x member).1
  obtain ⟨r, member, inF⟩ := referenced
  have inWalked : r ∈ groups.flatMap (·.2) :=
    (List.mem_append.mp member).resolve_left fun configured => configuredApart r configured inF
  obtain ⟨g, inG, inItems⟩ := List.mem_flatMap.mp inWalked
  have isF : g.1 = F := (own g inG r inItems).symm.trans inF
  have filtered : (groups.flatMap (·.2)).filter (·.sourceFile == F) = g.2 :=
    filter_flatMap_of_nodup nodup inG (fun x member => by simp [own g inG x member, isF])
      fun g' inG' other x member => by simp [own g' inG' x member, isF ▸ other]
  have noneConfigured : (mapped ++ options ++ named).filter (·.sourceFile == F) = [] :=
    List.filter_eq_nil_iff.mpr fun x member => by simp [configuredApart x member]
  rw [List.filter_append, noneConfigured, filtered, List.nil_append]
  have stepped := each g inG
  rw [isF] at stepped
  exact fileReferences_of_source source notJson stepped (List.ne_nil_of_mem inItems)

end ReferenceIndex

section Apply

variable {t : StagedTree}

theorem applyFileReferences_of_spans {refs : List Reference} {F : Path} {u : StagedTree}
    (spans : ∀ r ∈ refs, r.sourceFile = F → r.isSpan = true)
    (referenced : ∃ r ∈ refs, r.sourceFile = F)
    (run : (applyFileReferences refs F).runOn t = (.ok (), u)) :
    applySpanEdits t F (refs.filter (·.sourceFile == F)) = .ok u := by
  unfold applyFileReferences at run
  dsimp only at run
  have allSpans : (refs.filter (·.sourceFile == F)).filter (·.isSpan) =
      refs.filter (·.sourceFile == F) :=
    List.filter_eq_self.mpr fun r member =>
      spans r (List.mem_filter.mp member).1 (by simpa using (List.mem_filter.mp member).2)
  have noJson : (refs.filter (·.sourceFile == F)).filter (!·.isSpan) = [] :=
    List.filter_eq_nil_iff.mpr fun r member => by
      simp [spans r (List.mem_filter.mp member).1 (by simpa using (List.mem_filter.mp member).2)]
  have nonempty : (refs.filter (·.sourceFile == F)).isEmpty = false := by
    obtain ⟨r, member, inF⟩ := referenced
    exact List.isEmpty_eq_false_iff_exists_mem.mpr
      ⟨r, List.mem_filter.mpr ⟨member, by simpa using inF⟩⟩
  rw [allSpans, noJson] at run
  simp only [nonempty, Bool.not_false, if_true, List.isEmpty_nil, Bool.not_true,
    Bool.false_eq_true, if_false] at run
  obtain ⟨_, u', updated, done⟩ := runOn_bind_eq_ok run
  rw [runOn_pure, Prod.mk.injEq] at done
  obtain ⟨-, rfl⟩ := done
  exact runOn_update_eq_ok.mp updated

/-- Rewriting references writes a file whose references are all spans as its text with the spans
spliced, taken in file order. -/
theorem applyReferences_view_of_spans {refs inOrder : List Reference} {F : Path} {u : StagedTree}
    {content : String} (consistent : t.Consistent)
    (spans : ∀ r ∈ refs, r.sourceFile = F → r.isSpan = true)
    (referenced : ∃ r ∈ refs, r.sourceFile = F)
    (read : t.readToString F = .ok content)
    (arranged : (refs.filter (·.sourceFile == F)).Perm inOrder)
    (ordered : SpansFrom (Utf8.encode content) 0 inOrder)
    (run : (applyReferences refs).runOn t = (.ok (), u)) :
    u.view F = some (splice (Utf8.encode content) 0 inOrder) := by
  unfold applyReferences at run
  dsimp only at run
  obtain ⟨_, u', looped, done⟩ := runOn_bind_eq_ok run
  rw [runOn_pure, Prod.mk.injEq] at done
  obtain ⟨-, rfl⟩ := done
  have listed : F ∈ ((refs.map (·.sourceFile)).mergeSort fun a b => !(b.lt a)).eraseDups := by
    obtain ⟨r, member, inF⟩ := referenced
    simpa [List.mem_eraseDups, List.mem_mergeSort] using ⟨r, member, inF⟩
  obtain ⟨-, present⟩ :=
    forIn_applyFileReferences_view (F := F) (nodup_eraseDups _) consistent looped
  obtain ⟨t₁, t₂, consistent₁, same, own, final⟩ := present listed
  have read₁ : t₁.readToString F = .ok content := by
    rw [readToString_congr consistent.toLayered consistent₁.toLayered same
      (readToString_live consistent read)]
    exact read
  have written := applyFileReferences_of_spans spans referenced own
  rw [applySpanEdits_eq_write_splice read₁ arranged ordered] at written
  rw [final, consistent₁.view_write written F, if_pos rfl]

/-- A relocation rewrites the module specifiers of a source file in place. Take a source file `F`
that is not a manifest, whose references are all spans and that has one, and whose specifiers
the scanner lists in file order, each holding its text. Its references are those
`sourceFileReferences` makes of its specifiers for the move; the file, at its place after the
move, holds its text with each of their ranges replaced by the new text; and a relative
specifier naming `target` from the file's directory is rewritten, or kept, as `Relinks` says. -/
theorem relocate_rewrites_specifiers_in_place (consistent : t.Consistent)
    {config : Config.ToolConfig} {request : RelocateRequest} {report : RelocationReport}
    {t' : StagedTree} (relocated : (relocate config request).runOn t = (.ok report, t'))
    {F : Path} {ext : String} {language : Script.Language} {content : String}
    {specs : List Script.Specifier} (source : F.extension = some ext) (notJson : ext ≠ "json")
    (notManifest : F.fileName ≠ some config.workspace.manifestFile)
    (lang : Script.Language.ofExtension ext = some language)
    (read : t.readToString F = .ok content)
    (scanned : Script.scanSpecifiers language content F.render = .ok specs)
    (ordered : SpecifiersFrom (Utf8.encode content) 0 specs)
    (spansOnly : ∀ r ∈ report.references, r.sourceFile = F → r.isSpan = true)
    (referenced : ∃ r ∈ report.references, r.sourceFile = F) :
    ∃ r project plan, ∃ ix : ReferenceIndex, Planned config request t r project plan ∧
      report.references = plan.references ∧ ix.config = config ∧
      ix.sourceFileReferences t F plan.move (plan.move.contains F) request.updateReferences =
        .ok (report.references.filter (·.sourceFile == F)) ∧
      t'.view ((plan.move.relocate F).getD F) =
        some (splice (Utf8.encode content) 0 (report.references.filter (·.sourceFile == F))) ∧
      ∀ spec ∈ specs, spec.relative = true → ∀ dir target, F.parent = some dir →
        dir.join spec.value = .ok target →
          ReferenceIndex.Relinks ix plan.move F dir spec.value target := by
  rw [runOn_relocate] at relocated
  cases planned : planRelocation config request t with
  | error e => simp [planned] at relocated
  | ok plan =>
  simp only [planned] at relocated
  obtain ⟨r, project, facts⟩ := planRelocation_planned consistent planned
  obtain ⟨edited, files, applied, moves, reported, -⟩ :=
    executeRelocation_movesExactly consistent facts relocated
  obtain ⟨r', ws, mappings, -, -, -, -, found⟩ := planRelocation_index planned
  rw [reported] at spansOnly referenced ⊢
  have own := ReferenceIndex.find_source_file consistent found source notJson spansOnly referenced
  have lang' : F.extension.bind Script.Language.ofExtension = some language := by
    rw [source]
    exact lang
  have spans := ReferenceIndex.sourceFileReferences_spansFrom lang' read scanned ordered own
  have written := applyReferences_view_of_spans consistent spansOnly referenced read
    (List.Perm.refl _) spans applied
  refine ⟨r, project, plan, _, facts, rfl, rfl, own, ?_,
    fun spec _ _ dir target parent resolves => ReferenceIndex.rewriteRelative_relinks parent resolves⟩
  have live := readToString_live consistent read
  -- a file that stays is edited where it is; one that moves is edited, then moved
  cases moving : plan.move.contains F
  · have stays : plan.move.relocate F = none := by simp [Move.relocate, moving]
    rw [stays, Option.getD_none, moves.view_of_stays consistent facts.fresh live moving]
    exact written
  · have member : F ∈ files := (moves.mem_files F).mpr ⟨live, moving⟩
    obtain ⟨G, lands⟩ := Option.isSome_iff_exists.mp (moves.lands F member)
    have notManifestPath : F ≠ plan.manifestPath := by
      rw [facts.manifestPath]
      rintro rfl
      exact notManifest (by simp [Path.fileName, Path.child])
    have elsewhere : plan.move.relocate plan.manifestPath ≠ some G :=
      fun landsToo => notManifestPath (Move.relocate_inj lands landsToo)
    rw [lands, Option.getD_some, moves.view G elsewhere, Move.movedView_of_relocate member lands]
    exact written

set_option maxRecDepth 100000 in
set_option maxHeartbeats 400000 in
/-- Moving the project `x` to `z` rewrites the import `./x/b` of `a.ts`, beside the project, to
`./z/b`. -/
theorem relocate_rewrites_specifiers_in_place_of_import :
    let config : Config.ToolConfig :=
      { workspace :=
        { manifestFile := "p", workspaceFile := "w", tsconfigCandidates := [], ignoredDirs := [],
          sourceExtensions := ["ts"], rootProjectEntries := [] } }
    let request : RelocateRequest := { project := "x", destination := "z" }
    let t : StagedTree :=
      { disk := ⟨[([.text "a.ts"], .file (Utf8.encode "import './x/b'")), ([.text "x"], .dir),
          ([.text "x", .text "b.ts"], .file (Utf8.encode "")),
          ([.text "x", .text "p"], .file (Utf8.encode "\x7b\x7d"))]⟩ }
    let F : Path := ⟨["a.ts"]⟩
    let spec : Script.Specifier := ⟨"./x/b", 8, 13⟩
    let ref : Reference := ⟨F, .importSpecifier, "./x/b", "./z/b", .span 8 13⟩
    let report : RelocationReport :=
      { project := "x", newName := "x", oldRoot := ⟨["x"]⟩, newRoot := ⟨["z"]⟩, filesMoved := 2,
        references := [ref] }
    t.Consistent ∧
      (relocate config request).runOn t = (.ok report, ((relocate config request).runOn t).2) ∧
      F.extension = some "ts" ∧ F.fileName ≠ some config.workspace.manifestFile ∧
      Script.Language.ofExtension "ts" = some .typescript ∧
      t.readToString F = .ok "import './x/b'" ∧
      Script.scanSpecifiers .typescript "import './x/b'" F.render = .ok [spec] ∧
      SpecifiersFrom (Utf8.encode "import './x/b'") 0 [spec] ∧
      ∃ r project plan, ∃ ix : ReferenceIndex, Planned config request t r project plan ∧
        report.references = plan.references ∧ ix.config = config ∧
        ix.sourceFileReferences t F plan.move (plan.move.contains F) request.updateReferences =
          .ok (report.references.filter (·.sourceFile == F)) ∧
        ((relocate config request).runOn t).2.view ((plan.move.relocate F).getD F) =
          some (splice (Utf8.encode "import './x/b'") 0
            (report.references.filter (·.sourceFile == F))) ∧
        ∀ s ∈ [spec], s.relative = true → ∀ dir target, F.parent = some dir →
          dir.join s.value = .ok target → ReferenceIndex.Relinks ix plan.move F dir s.value target := by
  intro config request t F spec ref report
  have consistent : t.Consistent :=
    consistent_fresh ⟨⟨by decide, by decide⟩, by decide, by decide⟩ {}
  have reported : ((relocate config request).runOn t).1 = .ok report := by
    simp only [config, request, t, report, ref, F]
    cbv
  have relocated : (relocate config request).runOn t =
      (.ok report, ((relocate config request).runOn t).2) := by
    rw [← reported]
  have notManifest : F.fileName ≠ some config.workspace.manifestFile := by decide
  have read : t.readToString F = .ok "import './x/b'" := by
    simp only [t, F]
    cbv
  have evaluated : F.extension = some "ts" ∧ Script.Language.ofExtension "ts" = some .typescript ∧
      Script.scanSpecifiers .typescript "import './x/b'" F.render = .ok [spec] ∧
      spec.stop ≤ (Utf8.encode "import './x/b'").length ∧
      ((Utf8.encode "import './x/b'").drop spec.start).take (spec.stop - spec.start) =
        Utf8.encode spec.value := by
    simp only [F, spec]
    cbv
  obtain ⟨source, lang, scanned, inText, holds⟩ := evaluated
  have ordered : SpecifiersFrom (Utf8.encode "import './x/b'") 0 [spec] :=
    ⟨by decide, by decide, inText, holds, trivial⟩
  refine ⟨consistent, relocated, source, notManifest, lang, read, scanned, ordered,
    relocate_rewrites_specifiers_in_place consistent relocated source (by decide) notManifest lang
      read scanned ordered (fun r member _ => ?_) ⟨ref, List.mem_singleton_self ref, rfl⟩⟩
  rw [List.mem_singleton.mp member]
  rfl

end Apply

end Monorepo.Workspace
