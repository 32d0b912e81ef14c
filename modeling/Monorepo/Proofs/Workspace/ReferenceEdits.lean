import Mathlib
import Monorepo.Proofs.Workspace.Frame
import Monorepo.Proofs.Workspace.ReferenceSearch

/-!
# Rewriting references in JSON documents

A JSON reference rewrites its document at its pointer, so what lies under another top-level key
stays as it was. The references of implicit dependencies, one per index of the array, each find
the old name still in place and together rewrite every entry as `renamedDependency` says. File by
file, the rewriting of references leaves a file no reference is in as it was, and writes a file
whose references are all JSON ones as its document with them applied.
-/

namespace Monorepo.Workspace

open Json StagedTree TreeStep Utf8

namespace Location

/-- A place in a JSON document, as a value or a key, and not a span of a source text. -/
def InDocument : Location → Prop
  | .span _ _ => False
  | .jsonValue _ => True
  | .jsonKey _ => True

end Location

namespace Reference

variable {r : Reference} {h k : String} {rest : List String}

theorem applyValue_below (D : Value) (below : r.location.Below h) (other : h ≠ k)
    (named : indexToken k = none) : (applyValue D r).atTokens (k :: rest) = D.atTokens (k :: rest) := by
  unfold applyValue
  split
  · rename_i pointer located
    rw [located] at below
    split
    · rename_i tokens read
      obtain ⟨σ, rfl⟩ := below tokens read
      split
      · exact Value.atTokens_updateTokens_of_ne D other named
      · rfl
    · rfl
  · rfl

theorem applyKey_below (D : Value) (below : r.location.Below h) (other : h ≠ k)
    (named : indexToken k = none) : (applyKey D r).atTokens (k :: rest) = D.atTokens (k :: rest) := by
  unfold applyKey
  split
  · rename_i pointer located
    rw [located] at below
    exact Value.atTokens_renameKey_of_ne D below other named
  · rfl

theorem applyKey_of_jsonValue (D : Value) {pointer : String}
    (located : r.location = .jsonValue pointer) : applyKey D r = D := by
  unfold applyKey
  rw [located]

theorem applyValue_member (D : Value) (plain : PlainToken k)
    (located : r.location = .jsonValue ("/" ++ k)) (holds : D.atTokens [k] = some (.string r.oldValue)) :
    applyValue D r = D.updateTokens (fun _ => .string r.newValue) [k] := by
  have read : pointerTokens ("/" ++ k) = some [k] := pointerTokens_single plain
  unfold applyValue
  rw [located]
  simp only [read, Value.pointer?, Option.bind_some, holds]
  rw [if_pos (Value.beq_some_string.mpr rfl)]

theorem applyValue_index (D : Value) {i : Nat} {xs : List Value} (plain : PlainToken k)
    (named : indexToken k = none) (located : r.location = .jsonValue ("/" ++ k ++ "/" ++ toString i))
    (listed : D.atTokens [k] = some (.array xs)) (holds : xs[i]? = some (.string r.oldValue)) :
    (applyValue D r).atTokens [k] = some (.array (xs.set i (.string r.newValue))) := by
  have read : pointerTokens ("/" ++ k ++ "/" ++ toString i) = some [k, toString i] := by
    rw [pointerTokens_cons plain, pointerTokens_single (plainToken_toString i)]
    rfl
  have found : D.pointer? ("/" ++ k ++ "/" ++ toString i) = xs[i]? := by
    rw [Value.pointer?, read, Option.bind_some, Value.atTokens_cons, listed, Option.bind_some,
      Value.atTokens_index]
  unfold applyValue
  rw [located]
  simp only [read, found, holds]
  rw [if_pos (Value.beq_some_string.mpr rfl), Value.atTokens_updateTokens_self D named, listed,
    Option.map_some, Value.updateTokens_index]

end Reference

variable {k : String} {rest : List String}

theorem foldl_applyValue_below {refs : List Reference} (D : Value)
    (below : ∀ r ∈ refs, ∃ h ≠ k, r.location.Below h) (named : indexToken k = none) :
    (refs.foldl Reference.applyValue D).atTokens (k :: rest) = D.atTokens (k :: rest) := by
  induction refs generalizing D with
  | nil => rfl
  | cons r more ih =>
    obtain ⟨h, other, under⟩ := below r List.mem_cons_self
    rw [List.foldl_cons, ih _ fun r' member => below r' (List.mem_cons_of_mem r member),
      Reference.applyValue_below D under other named]

theorem foldl_applyKey_below {refs : List Reference} (D : Value)
    (below : ∀ r ∈ refs, ∃ h ≠ k, r.location.Below h) (named : indexToken k = none) :
    (refs.foldl Reference.applyKey D).atTokens (k :: rest) = D.atTokens (k :: rest) := by
  induction refs generalizing D with
  | nil => rfl
  | cons r more ih =>
    obtain ⟨h, other, under⟩ := below r List.mem_cons_self
    rw [List.foldl_cons, ih _ fun r' member => below r' (List.mem_cons_of_mem r member),
      Reference.applyKey_below D under other named]

theorem foldl_applyKey_of_values {refs : List Reference} (D : Value)
    (values : ∀ r ∈ refs, ∃ pointer, r.location = .jsonValue pointer) :
    refs.foldl Reference.applyKey D = D := by
  induction refs generalizing D with
  | nil => rfl
  | cons r more ih =>
    obtain ⟨pointer, located⟩ := values r List.mem_cons_self
    rw [List.foldl_cons, Reference.applyKey_of_jsonValue D located,
      ih D fun r' member => values r' (List.mem_cons_of_mem r member)]

/-- The references of implicit dependencies that stand after `pre` in the array of a document,
applied to it, rename each of them and keep `pre`. The induction
is on the dependencies: each reference finds its own entry as the search read it, since the ones
before it changed only earlier entries. -/
theorem foldl_applyValue_implicit {m : Move} {manifest : Path} (deps : List Value) :
    ∀ (pre : List Value) (D : Value), D.atTokens ["implicitDependencies"] = some (.array (pre ++ deps)) →
      (((deps.zipIdx pre.length).filterMap (ReferenceIndex.implicitDependencyReference m manifest)).foldl
        Reference.applyValue D).atTokens ["implicitDependencies"] =
        some (.array (pre ++ deps.map (renamedDependency m.oldName m.newName))) := by
  have plain : PlainToken "implicitDependencies" := ⟨by decide, by decide⟩
  have named : indexToken "implicitDependencies" = none := by decide
  have spelled : ∀ i : Nat, "/implicitDependencies/" ++ toString i =
      "/" ++ "implicitDependencies" ++ "/" ++ toString i := fun i => by
    simp only [String.append_assoc]
    rfl
  induction deps with
  | nil =>
    intro pre D listed
    simpa using listed
  | cons dep more ih =>
    intro pre D listed
    rw [List.zipIdx_cons, List.filterMap_cons]
    have here : (pre ++ dep :: more)[pre.length]? = some dep := by simp
    cases made : ReferenceIndex.implicitDependencyReference m manifest (dep, pre.length) with
    | none =>
      have kept := ReferenceIndex.implicitDependencyReference_eq_none made
      have next := ih (pre ++ [dep]) D (by simpa using listed)
      simpa [kept] using next
    | some r =>
      obtain ⟨-, located, rfl, renamed⟩ := ReferenceIndex.implicitDependencyReference_eq_some made
      rw [spelled] at located
      have applied := Reference.applyValue_index D plain named located listed here
      have setHere : (pre ++ .string r.oldValue :: more).set pre.length (.string r.newValue) =
          (pre ++ [.string r.newValue]) ++ more := by simp
      rw [setHere] at applied
      have next := ih (pre ++ [.string r.newValue]) _ applied
      rw [List.foldl_cons]
      simpa [renamed] using next

variable {t : StagedTree}

theorem readJson_congr {u : StagedTree} (layered : t.Layered) (layered' : u.Layered) {p : Path}
    (same : u.view p = t.view p) (live : (t.view p).isSome) : u.readJson p = t.readJson p := by
  obtain ⟨c, found⟩ := Option.isSome_iff_exists.mp live
  simp only [readJson, readToString, layered.read_of_live found,
    layered'.read_of_live (same.trans found)]

theorem applyJsonEdits_eq_ok {file : Path} {refs : List Reference} {u : StagedTree}
    (edited : applyJsonEdits t file refs = .ok u) :
    ∃ D, t.readJson file = .ok D ∧
      t.write file (encode (jsonText (refs.foldl Reference.applyKey
        (refs.foldl Reference.applyValue D)))) = .ok u := by
  unfold applyJsonEdits at edited
  obtain ⟨D, read, written⟩ := except_bind_eq_ok.mp edited
  exact ⟨D, read, written⟩

theorem applyFileReferences_of_json {refs : List Reference} {F : Path} {u : StagedTree}
    (json : ∀ r ∈ refs, r.sourceFile = F → r.location.InDocument) (some : ∃ r ∈ refs, r.sourceFile = F)
    (run : (applyFileReferences refs F).runOn t = (.ok (), u)) :
    applyJsonEdits t F (refs.filter (·.sourceFile == F)) = .ok u := by
  unfold applyFileReferences at run
  dsimp only at run
  have noSpans : (refs.filter (·.sourceFile == F)).filter (·.isSpan) = [] := by
    refine List.filter_eq_nil_iff.mpr fun r member => ?_
    have inDocument := json r (List.mem_filter.mp member).1
      (by simpa using (List.mem_filter.mp member).2)
    unfold Reference.isSpan
    split
    · rename_i located
      rw [located] at inDocument
      exact inDocument.elim
    · simp
  have allJson : (refs.filter (·.sourceFile == F)).filter (!·.isSpan) =
      refs.filter (·.sourceFile == F) := by
    refine List.filter_eq_self.mpr fun r member => ?_
    have spanFree := List.filter_eq_nil_iff.mp noSpans r member
    simpa using spanFree
  have nonempty : (refs.filter (·.sourceFile == F)).isEmpty = false := by
    obtain ⟨r, member, inF⟩ := some
    exact List.isEmpty_eq_false_iff_exists_mem.mpr
      ⟨r, List.mem_filter.mpr ⟨member, by simpa using inF⟩⟩
  rw [noSpans, allJson] at run
  simp only [List.isEmpty_nil, Bool.not_true, Bool.false_eq_true, if_false, nonempty,
    Bool.not_false, if_true] at run
  exact runOn_update_eq_ok.mp run

theorem nodup_eraseDups {α : Type} [BEq α] [LawfulBEq α] : ∀ l : List α, l.eraseDups.Nodup
  | [] => List.nodup_nil
  | a :: as => by
    have shorter : (as.filter fun b => !b == a).length < as.length + 1 :=
      Nat.lt_succ_of_le (List.length_filter_le _ as)
    rw [List.eraseDups_cons]
    refine List.nodup_cons.mpr ⟨fun member => ?_, nodup_eraseDups _⟩
    simp at member
termination_by l => l.length

/-- The loop of `applyReferences` over distinct files: a file not among them keeps its view, and
a file among them ends as its own step left it, run from a tree that still showed it as at first.
The induction is on the files; the step of every other file edits only that file. -/
theorem forIn_applyFileReferences_view {refs : List Reference} {F : Path} :
    ∀ {files : List Path} {t u : StagedTree}, files.Nodup → t.Consistent →
      (forIn files PUnit.unit fun file _ => do
        applyFileReferences refs file
        pure (ForInStep.yield PUnit.unit)).runOn t = (.ok (), u) →
      (F ∉ files → u.view F = t.view F) ∧
      (F ∈ files → ∃ t₁ t₂, t₁.Consistent ∧ t₁.view F = t.view F ∧
        (applyFileReferences refs F).runOn t₁ = (.ok (), t₂) ∧ u.view F = t₂.view F) := by
  intro files
  induction files with
  | nil =>
    intro t u _ _ run
    rw [List.forIn_nil, runOn_pure, Prod.mk.injEq] at run
    obtain ⟨-, rfl⟩ := run
    exact ⟨fun _ => rfl, fun member => absurd member List.not_mem_nil⟩
  | cons x rest ih =>
    intro t u nodup consistent run
    obtain ⟨outside, restNodup⟩ := List.nodup_cons.mp nodup
    rw [List.forIn_cons] at run
    obtain ⟨step, t₁, stepped, run⟩ := runOn_bind_eq_ok run
    obtain ⟨_, t₀, applied, done⟩ := runOn_bind_eq_ok stepped
    rw [runOn_pure, Prod.mk.injEq, Except.ok.injEq] at done
    obtain ⟨rfl, moved⟩ := done
    rw [moved] at applied
    obtain ⟨consistent₁, edits⟩ := applyFileReferences_editsWithin refs (List.mem_singleton_self x)
      t t₁ () consistent applied
    obtain ⟨later, laterStep⟩ := ih restNodup consistent₁ run
    by_cases same : x = F
    · subst same
      exact ⟨fun absent => absurd List.mem_cons_self absent,
        fun _ => ⟨t, t₁, consistent, rfl, applied, later outside⟩⟩
    · have kept : t₁.view F = t.view F :=
        edits.outside F (by simpa using Ne.symm same)
      refine ⟨fun absent => (later fun inRest => absent (List.mem_cons_of_mem x inRest)).trans kept,
        fun member => ?_⟩
      obtain ⟨t₂, t₃, consistent₂, same₂, own, final⟩ :=
        laterStep ((List.mem_cons.mp member).resolve_left (Ne.symm same))
      exact ⟨t₂, t₃, consistent₂, same₂.trans kept, own, final⟩

/-- Rewriting references leaves a file that none of them is in as it was; a file whose references
are all in its document is written as that document, read before, with its references applied:
the values first, then the keys. -/
theorem applyReferences_view_of_json {refs : List Reference} {F : Path} {u : StagedTree}
    (consistent : t.Consistent) (json : ∀ r ∈ refs, r.sourceFile = F → r.location.InDocument)
    (run : (applyReferences refs).runOn t = (.ok (), u)) :
    ((∀ r ∈ refs, r.sourceFile ≠ F) → u.view F = t.view F) ∧
    ((∃ r ∈ refs, r.sourceFile = F) → ∃ D, t.readJson F = .ok D ∧
      u.view F = some (encode (jsonText ((refs.filter (·.sourceFile == F)).foldl Reference.applyKey
        ((refs.filter (·.sourceFile == F)).foldl Reference.applyValue D))))) := by
  unfold applyReferences at run
  dsimp only at run
  obtain ⟨_, u', looped, done⟩ := runOn_bind_eq_ok run
  rw [runOn_pure, Prod.mk.injEq] at done
  obtain ⟨-, rfl⟩ := done
  have member : ∀ p, p ∈ ((refs.map (·.sourceFile)).mergeSort fun a b => !(b.lt a)).eraseDups ↔
      ∃ r ∈ refs, r.sourceFile = p := by
    intro p
    simp [List.mem_eraseDups, List.mem_mergeSort]
  obtain ⟨absent, present⟩ :=
    forIn_applyFileReferences_view (F := F) (nodup_eraseDups _) consistent looped
  refine ⟨fun none => absent fun listed => ?_, fun some => ?_⟩
  · obtain ⟨r, inRefs, inF⟩ := (member F).mp listed
    exact none r inRefs inF
  · obtain ⟨t₁, t₂, consistent₁, same, own, final⟩ := present ((member F).mpr some)
    obtain ⟨D, read, written⟩ := applyJsonEdits_eq_ok (applyFileReferences_of_json json some own)
    refine ⟨D, ?_, ?_⟩
    · rw [← readJson_congr consistent.toLayered consistent₁.toLayered same
        (same ▸ readJson_live consistent₁ read)]
      exact read
    · rw [final, consistent₁.view_write written F, if_pos rfl]

end Monorepo.Workspace
