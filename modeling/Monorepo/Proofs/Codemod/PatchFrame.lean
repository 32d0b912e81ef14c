import Mathlib
import Monorepo.Proofs.Codemod.EditRange
import Monorepo.Proofs.Codemod.PatchRun

/-!
# What a patch leaves alone

A patch edits the object its locator finds and the import block, nothing else. Each entry's edit,
planned against the text as it stands, lies in the object the locator finds there and misses
every member its first key does not name (`plan_edit_stays_inside`). An import goes in as a line
of its own at the file's import slot (`importEdit_slot`). And over a whole run, where the grammar
keeps its laws, the members of the object that no entry's first key names are read again in the
output, in their order, each with its text and its key (`patchSourceWith_keeps_members`): the
entries keep them one after another (`EditSite.membersKept`), and the imports keep every
statement but the imports.
-/

namespace Monorepo.Codemod

open Monorepo.Script Lookup

variable {parse : ScriptParser}

/-- The entries of a patch applied in turn keep the parse of the text and the object's address,
and keep every member of the object that no entry's first key names. The induction is on the
entries applied, each step by `applyEntryWith_settles`. -/
theorem Gathered.entries_keep_members (laws : GrammarLaws parse) {callee : Option String}
    {o : List Nat} :
    ∀ {entries : List PatchEntry} {e e' : Editor} {outs : List EntryOutcome},
      Gathered (entryStep parse (.defaultExport callee)) entries e e' outs →
      e.ParsedBy parse → exportedObjectAt callee e.parsed = some o →
      (∀ entry ∈ entries, ∃ shape, Simple entry.value entry.mode shape) →
      e'.ParsedBy parse ∧ e'.language = e.language ∧ e'.origin = e.origin ∧
        exportedObjectAt callee e'.parsed = some o ∧
        ∃ x x', e.parsed.root.subtreeAt o = some x ∧ e'.parsed.root.subtreeAt o = some x' ∧
          MembersKept e.parsed.src e'.parsed.src (entries.flatMap (·.path.take 1)) x x'
  | _, _, _, _, .nil, parsedBy, found, _ => by
    obtain ⟨x, at_, -⟩ := (exportedObjectAt_located (laws.shaped parsedBy) found).object
    exact ⟨parsedBy, rfl, rfl, found, x, x, at_, at_, .refl _ x⟩
  | entry :: rest, _, _, _, .cons stepped gathered, parsedBy, found, simple => by
    obtain ⟨shape, simpleEntry⟩ := simple entry List.mem_cons_self
    obtain ⟨-, applied⟩ := entryStep_eq_ok stepped
    obtain ⟨parsedBy', language, origin, found', -, -, -, -, x, x₁, at_, at₁, kept⟩ :=
      applyEntryWith_settles laws parsedBy found simpleEntry applied
    obtain ⟨parsedBy'', language', origin', found'', x₁', x', at₁', at', kept'⟩ :=
      Gathered.entries_keep_members laws gathered parsedBy' found'
        fun entry member => simple entry (List.mem_cons_of_mem _ member)
    rw [at₁, Option.some.injEq] at at₁'
    subst at₁'
    refine ⟨parsedBy'', language'.trans language, origin'.trans origin, found'', x, x', at_, at', ?_⟩
    rw [List.flatMap_cons]
    exact kept.trans kept'

/-- Over a run of a patch of simple entries and plain imports on the default export, the members
of the object that no entry's first key names are read again in the output, among the members of
the object the locator finds there, in their order, each with its text and its key. -/
theorem patchSourceWith_keeps_members (laws : GrammarLaws parse) {text out origin : String}
    {language : Language} {callee : Option String} {patch : ConfigPatch}
    {outcomes : List EntryOutcome}
    (patched : patchSourceWith parse text language origin (.defaultExport callee) patch =
      .ok (out, outcomes))
    (simple : ∀ entry ∈ patch.entries, ∃ shape, Simple entry.value entry.mode shape)
    (plain : ∀ imp ∈ patch.imports, isPlainKey imp.name = true) :
    ∃ p p' x x', parse language text origin = .ok p ∧
      (Locator.defaultExport callee).find p = some x ∧ parse language out origin = .ok p' ∧
      (Locator.defaultExport callee).find p' = some x' ∧
      MembersKept p.src p'.src (patch.entries.flatMap (·.path.take 1)) x x' := by
  obtain ⟨e, e', outs, loaded, found, gathered, rest⟩ := patchSourceWith_eq_ok patched
  obtain ⟨parsedOk, language_eq, origin_eq⟩ := Editor.loadWith_eq_ok loaded
  obtain ⟨o, exported⟩ := exists_exportedObjectAt found
  obtain ⟨parsedBy', language', origin', found', x, x₁, at_, at₁, kept⟩ :=
    Gathered.entries_keep_members laws gathered (Editor.parsedBy_of_loadWith laws loaded)
      exported simple
  have locates := find_of_exportedObjectAt exported at_
  have locates₁ := find_of_exportedObjectAt found' at₁
  -- the imports, when the patch goes on to them, keep the object the locator finds
  split at rest
  · obtain ⟨e'', outs', importsRun, returned⟩ := rest
    obtain ⟨keeps, -⟩ := Gathered.imports_bind laws importsRun parsedBy' plain
    obtain ⟨x', locates', kept'⟩ := keeps.keepsMembers _ x₁ locates₁
    obtain ⟨rfl, -⟩ := Prod.mk.inj returned
    have reads := keeps.parsedBy.reads (keeps.language.trans (language'.trans language_eq))
      (keeps.origin.trans (origin'.trans origin_eq))
    refine ⟨e.parsed, e''.parsed, x, x', parsedOk, locates, reads, locates', ?_⟩
    rw [← List.append_nil (patch.entries.flatMap _)]
    exact kept.trans kept'
  · obtain ⟨rfl, -⟩ := Prod.mk.inj rest
    exact ⟨e.parsed, e'.parsed, x, x₁, parsedOk, locates,
      parsedBy'.reads (language'.trans language_eq) (origin'.trans origin_eq), locates₁, kept⟩

/-- Where a patch's edits fall, and what they keep. The edit an entry plans against the current
text lies in the object its locator finds there and misses every member of it but the one the
entry's first key names; the edit that adds an import inserts `import { name } from <module>;` as
a line of its own at the file's import slot; and over a run of a patch on the default export,
with a parser that keeps the grammar laws, the members of the object that no entry's first key
names stand in the output's object in their order, each with its text and its key. -/
theorem patch_edits_stay_in_place {e : Editor} {l : Locator} {object : Node} {key : String}
    {rest : List String} {value : PatchValue} {mode : PatchMode} {ed : TextEdit}
    {o : PatchOutcome} (located : locate e l = .ok object) (nested : object.Nested)
    (planned : plan e l (key :: rest) value mode = .ok (.edit ed o))
    {p : Parsed} {name module : String} {edit : TextEdit} (rootNested : p.root.Nested)
    (made : importEdit p name module = some edit) :
    (ed.Inside object ∧ ∀ m ∈ object.members,
      (∀ property ∈ findProperty e.parsed.src object key, property.node ≠ m) →
        m.stop ≤ ed.start ∨ ed.stop ≤ m.start) ∧
    (let line := "import \x7b " ++ name ++ " \x7d from " ++ renderString module (detectQuote p) ++ ";"
     edit.start = edit.stop ∧ ImportSlot p.src p.root edit.start ∧
       (edit.text = detectNewline p.src.text ++ line ∨
         edit.text = line ++ detectNewline p.src.text)) ∧
    ∀ {parse : ScriptParser} {text out origin : String} {language : Language}
      {callee : Option String} {patch : ConfigPatch} {outcomes : List EntryOutcome},
      GrammarLaws parse →
      patchSourceWith parse text language origin (.defaultExport callee) patch =
        .ok (out, outcomes) →
      (∀ entry ∈ patch.entries, ∃ shape, Simple entry.value entry.mode shape) →
      (∀ imp ∈ patch.imports, isPlainKey imp.name = true) →
      ∃ p p' x x', parse language text origin = .ok p ∧
        (Locator.defaultExport callee).find p = some x ∧ parse language out origin = .ok p' ∧
        (Locator.defaultExport callee).find p' = some x' ∧
        MembersKept p.src p'.src (patch.entries.flatMap (·.path.take 1)) x x' :=
  ⟨plan_edit_stays_inside located nested planned, importEdit_slot rootNested made,
    fun laws patched simple plain => patchSourceWith_keeps_members laws patched simple plain⟩

set_option maxRecDepth 100000 in
/-- In `export default {a:1}`, a new key `b` is inserted right after `a`, and an import of `x`
goes before the export statement. Skipping the shorthand `a` of `export default {a}`, with the
parser that reads that one text, keeps the object and every member but `a`. -/
theorem patch_edits_stay_in_place_of_new_key_and_import :
    let e : Editor := (Editor.load "export default \x7ba:1\x7d" .typescript "c.ts").toOption.getD
      ⟨.typescript, "c.ts", ⟨Source.ofString "", default⟩⟩
    let object : Node := (locate e (.defaultExport none)).toOption.getD default
    let ed : TextEdit := ⟨19, 19, ", b: true"⟩
    let edit : TextEdit := ⟨0, 0, "import \x7b x \x7d from 'y';\n"⟩
    locate e (.defaultExport none) = .ok object ∧ object.Nested ∧
      plan e (.defaultExport none) ["b"] (.literal (.bool true)) .merge = .ok (.edit ed .inserted) ∧
      e.parsed.root.Nested ∧ importEdit e.parsed "x" "y" = some edit ∧
      ed.Inside object ∧ ImportSlot e.parsed.src e.parsed.root edit.start ∧
      ∃ p p' x x', readsOnly shorthandSource shorthandParsed .typescript shorthandSource "v" =
          .ok p ∧ (Locator.defaultExport none).find p = some x ∧
        readsOnly shorthandSource shorthandParsed .typescript shorthandSource "v" = .ok p' ∧
        (Locator.defaultExport none).find p' = some x' ∧
        MembersKept p.src p'.src (shorthandSkip.entries.flatMap (·.path.take 1)) x x' := by
  intro e object ed edit
  have evaluated : locate e (.defaultExport none) = .ok object ∧ object.Nested ∧
      plan e (.defaultExport none) ["b"] (.literal (.bool true)) .merge =
        .ok (.edit ed .inserted) ∧ e.parsed.root.Nested ∧
      importEdit e.parsed "x" "y" = some edit := by
    simp only [object, ed, e, edit]
    cbv
  obtain ⟨located, nested, planned, rootNested, made⟩ := evaluated
  have placed := patch_edits_stay_in_place located nested planned rootNested made
  exact ⟨located, nested, planned, rootNested, made, placed.1.1, placed.2.1.2.1,
    placed.2.2 readsOnly_shorthand_laws patchSourceWith_shorthandSkip shorthandSkip_simple
      shorthandSkip_plain⟩

end Monorepo.Codemod
