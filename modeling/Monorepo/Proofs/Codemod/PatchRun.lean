import Monorepo.Proofs.Codemod.EditSites
import Monorepo.Proofs.Codemod.Outcomes
import Monorepo.Proofs.Codemod.LawfulParser

/-!
# A patch run twice

A patch whose entries the planner writes in one piece (`Simple`), whose paths are apart (none a
prefix of another) and whose imports are plain names, applied a second time to the text its first
application returned, returns that text again, and reports no change. The grammar is a parameter
(`GrammarLaws`).

The first run keeps an invariant from entry to entry: the editor holds the parse of its text, the
locator finds the object at one address, and every entry applied so far plans nothing
(`applyEntryWith_settles`, from `walk_editSite`, `EditSite.settles` and `EditSite.keeps_done`).
The imports keep every statement other than the imports, so every entry still plans nothing,
and each import they add or find binds its name (`ensureNamedImportWith_keeps`). The second run
then parses the same text into the same tree, plans nothing for any entry and finds every import
(`patchSourceWith_idempotent`). The same invariant says where a single entry lands: after a
change, the parse of the text returned holds its value at its path
(`patchSourceWith_entry_lands`). The parser of `LawfulParser` keeps the laws, so neither result
rests on assumptions that cannot be met.
-/

namespace Monorepo.Codemod

open Monorepo.Script Monorepo.Json Node Lookup

variable {parse : ScriptParser}

section Steps

variable {value : PatchValue} {mode : PatchMode} {p : Parsed} {quote : Char}

theorem appendStep_cases (array : Node) (q : Char) :
    (∃ o, appendStep p array q value = .done o ∧ o.isChange = false) ∨
      ∃ edit, appendStep p array q value = .edit edit .updated := by
  unfold appendStep
  dsimp only
  split
  · exact .inl ⟨_, rfl, rfl⟩
  · split
    · exact .inl ⟨_, rfl, rfl⟩
    · split
      · exact .inr ⟨_, rfl⟩
      · exact .inr ⟨_, rfl⟩

theorem leafStep_cases {shape : Shape} (simple : Simple value mode shape) (property : Property)
    (style : ObjectStyle) (key : String) :
    (∃ o, leafStep p property style key value mode = .done o ∧ o.isChange = false) ∨
      ∃ edit o, leafStep p property style key value mode = .edit edit o ∧ o.isChange = true := by
  have flat : value.asObject? = none := by cases simple <;> rfl
  unfold leafStep
  split
  · split
    · exact .inl ⟨_, rfl, rfl⟩
    · exact .inl ⟨_, rfl, rfl⟩
    · exact .inr ⟨_, _, rfl, rfl⟩
  · split
    · rcases @appendStep_cases value p _ style.quote with
        ⟨o, done, quiet⟩ | ⟨edit, planned⟩
      · exact .inl ⟨o, done, quiet⟩
      · exact .inr ⟨edit, _, planned, rfl⟩
    · split
      · exact .inl ⟨_, rfl, rfl⟩
      · split
        · exact .inl ⟨_, rfl, rfl⟩
        · have merged : value.asObject? = some _ := ‹_›
          rw [flat] at merged
          cases merged
        · exact .inr ⟨_, _, rfl, rfl⟩

theorem walk_cases {shape : Shape} (simple : Simple value mode shape) :
    ∀ {path : List String} {x : Node} {step : Step},
      plan.walk value mode p quote x path = .ok step →
      (∃ o, step = .done o ∧ o.isChange = false) ∨ ∃ edit o, step = .edit edit o ∧ o.isChange = true
  | [], _, _, planned => by
    rw [plan.walk.eq_def] at planned
    cases planned
  | key :: rest, x, step, planned => by
    rw [plan.walk.eq_def] at planned
    dsimp only at planned
    split at planned
    · cases planned
      exact .inr ⟨_, _, rfl, rfl⟩
    · split at planned
      · rcases leafStep_cases simple _ (ObjectStyle.detect p x quote) key (p := p) with
          ⟨o, done, quiet⟩ | ⟨edit, o, planned', change⟩
        · rw [done] at planned
          cases planned
          exact .inl ⟨o, rfl, quiet⟩
        · rw [planned'] at planned
          cases planned
          exact .inr ⟨edit, o, rfl, change⟩
      · split at planned
        · split at planned
          · exact walk_cases simple planned
          · cases planned
            exact .inl ⟨_, rfl, rfl⟩
        · cases planned
          exact .inl ⟨_, rfl, rfl⟩

end Steps

/-- The editor holds what `parse` reads of its own text. -/
def Editor.ParsedBy (parse : ScriptParser) (e : Editor) : Prop :=
  parse e.language e.text e.origin = .ok e.parsed

section Editors

theorem Editor.loadWith_eq_ok {text origin : String} {language : Language} {e : Editor}
    (loaded : Editor.loadWith parse text language origin = .ok e) :
    parse language text origin = .ok e.parsed ∧ e.language = language ∧ e.origin = origin := by
  obtain ⟨parsed, parsedOk, made⟩ := except_bind_eq_ok.mp loaded
  cases made
  exact ⟨parsedOk, rfl, rfl⟩

theorem Editor.ParsedBy.loadWith {e : Editor} (parsedBy : e.ParsedBy parse) :
    Editor.loadWith parse e.text e.language e.origin = .ok e := by
  unfold Editor.loadWith
  rw [parsedBy]
  rfl

/-- An editor that `parse` reads, with the language and origin of a run, holds what the run's
parse of its text gives. -/
theorem Editor.ParsedBy.reads {e : Editor} {language : Language} {origin : String}
    (parsedBy : e.ParsedBy parse) (language_eq : e.language = language)
    (origin_eq : e.origin = origin) : parse language e.text origin = .ok e.parsed := by
  rw [← language_eq, ← origin_eq]
  exact parsedBy

theorem Editor.applyWith_eq_ok {e e' : Editor} {edit : TextEdit}
    (applied : e.applyWith parse edit = .ok e') :
    parse e.language (edit.splice e.parsed.src) e.origin = .ok e'.parsed ∧
      e' = { e with parsed := e'.parsed } := by
  unfold Editor.applyWith at applied
  dsimp only at applied
  cases outside : (decide (edit.start > edit.stop) || decide (edit.stop > e.text.utf8ByteSize) ||
      !e.src.offsets.contains edit.start || !e.src.offsets.contains edit.stop)
  · rw [outside, cond_false] at applied
    obtain ⟨parsed, parsedOk, made⟩ := except_bind_eq_ok.mp applied
    cases made
    exact ⟨parsedOk, rfl⟩
  · rw [outside] at applied
    cases applied

theorem Editor.ParsedBy.applyWith (laws : GrammarLaws parse) {e e' : Editor} {edit : TextEdit}
    (applied : e.applyWith parse edit = .ok e') :
    e'.ParsedBy parse ∧ e'.language = e.language ∧ e'.origin = e.origin := by
  obtain ⟨reparsed, made⟩ := Editor.applyWith_eq_ok applied
  rw [made]
  refine ⟨?_, rfl, rfl⟩
  show parse e.language e'.parsed.src.text e.origin = .ok e'.parsed
  rw [laws.source reparsed]
  exact reparsed

theorem plan_of_find {e : Editor} {l : Locator} {x : Node} (found : l.find e.parsed = some x)
    (path : List String) (value : PatchValue) (mode : PatchMode) :
    plan e l path value mode = plan.walk value mode e.parsed (detectQuote e.parsed) x path := by
  have located : locate e l = .ok x := locate_eq_ok_iff.mpr found
  simp only [plan, located]
  rfl

theorem find_of_exportedObjectAt {p : Parsed} {callee : Option String} {o : List Nat} {x : Node}
    (found : exportedObjectAt callee p = some o) (at_ : p.root.subtreeAt o = some x) :
    (Locator.defaultExport callee).find p = some x := by
  rw [find_defaultExport, found, Option.bind_some, at_]

end Editors

/-- The entry plans nothing in the editor: its value is in place, or it is skipped or blocked. -/
def Editor.Settles (e : Editor) (l : Locator) (entry : PatchEntry) : Prop :=
  ∃ o, plan e l entry.path entry.value entry.mode = .ok (.done o)

/-- Neither entry's path is a prefix of the other's. -/
def PatchEntry.Apart (entry other : PatchEntry) : Prop :=
  ¬ entry.path <+: other.path ∧ ¬ other.path <+: entry.path

section Entries

variable {callee : Option String}

/-- One simple entry applied where the locator finds the object at `o`: the editor still holds
the parse of its text and finds the object at `o`, the entry plans nothing any more (and, after
a change, finds its value unchanged at its path), every entry apart from it that planned nothing
still plans nothing, an outcome that is no change left the editor as it was, and the object keeps
every member the entry's first key does not name. -/
theorem applyEntryWith_settles (laws : GrammarLaws parse) {e e' : Editor} {o : List Nat}
    (parsedBy : e.ParsedBy parse) (found : exportedObjectAt callee e.parsed = some o)
    {entry : PatchEntry} {shape : Shape} (simple : Simple entry.value entry.mode shape)
    {fuel : Nat} {out : PatchOutcome}
    (applied : applyEntryWith parse (fuel + 1) e (.defaultExport callee) entry.path entry.value
      entry.mode = .ok (e', out)) :
    e'.ParsedBy parse ∧ e'.language = e.language ∧ e'.origin = e.origin ∧
      exportedObjectAt callee e'.parsed = some o ∧ e'.Settles (.defaultExport callee) entry ∧
      (∀ other : PatchEntry, entry.Apart other →
        e.Settles (.defaultExport callee) other → e'.Settles (.defaultExport callee) other) ∧
      (out.isChange = false → e' = e) ∧
      (out.isChange = true →
        plan e' (.defaultExport callee) entry.path entry.value entry.mode = .ok (.done .unchanged)) ∧
      ∃ x x', e.parsed.root.subtreeAt o = some x ∧ e'.parsed.root.subtreeAt o = some x' ∧
        MembersKept e.parsed.src e'.parsed.src (entry.path.take 1) x x' := by
  have shaped := laws.shaped parsedBy
  obtain ⟨x, at_, object⟩ := (exportedObjectAt_located shaped found).object
  have quoted := laws.detectQuote_quoted parsedBy
  have planned_eq := plan_of_find (find_of_exportedObjectAt found at_)
  rw [applyEntryWith] at applied
  obtain ⟨step, planned, applied⟩ := except_bind_eq_ok.mp applied
  rw [planned_eq] at planned
  rcases walk_cases simple planned with ⟨quiet, rfl, isQuiet⟩ | ⟨edit, change, rfl, isChange⟩
  · cases applied
    refine ⟨parsedBy, rfl, rfl, found, ⟨out, ?_⟩, fun _ _ settled => settled, fun _ => rfl,
      fun changed => by simp [isQuiet] at changed, x, x, at_, at_, .refl _ x⟩
    rw [planned_eq]
    exact planned
  · obtain ⟨e'', appliedEdit, made⟩ := except_bind_eq_ok.mp applied
    cases made
    obtain ⟨parsedBy', language, origin⟩ := Editor.ParsedBy.applyWith laws appliedEdit
    obtain ⟨reparsed, -⟩ := Editor.applyWith_eq_ok appliedEdit
    obtain ⟨a, rel, site, rep⟩ := walk_editSite laws parsedBy simple quoted reparsed at_ object planned
    have above := replacedAt_append.mp rep
    obtain ⟨x₀, x', at₀, at', below⟩ := above.subtreeAt_here
    rw [at_] at at₀
    cases at₀
    have found' := exportedObjectAt_replacedAt shaped (laws.shaped reparsed) found above
      site.keepsRole
    have planned_eq' := plan_of_find (find_of_exportedObjectAt found' at')
    have settles : plan e' (.defaultExport callee) entry.path entry.value entry.mode =
        .ok (.done .unchanged) := by
      rw [planned_eq']
      exact site.settles simple quoted below
    refine ⟨parsedBy', language, origin, found', ⟨.unchanged, settles⟩, ?_, ?_, fun _ => settles,
      x, x', at_, at', site.membersKept below⟩
    · rintro other ⟨notAbove, notBelow⟩ ⟨kept, settled⟩
      refine ⟨kept, ?_⟩
      rw [planned_eq] at settled
      rw [planned_eq']
      exact site.keeps_done quoted below notAbove notBelow settled
    · intro quiet'
      rw [quiet'] at isChange
      cases isChange

theorem PatchEntry.Apart.symm {entry other : PatchEntry} (apart : entry.Apart other) :
    other.Apart entry :=
  ⟨apart.2, apart.1⟩

/-- One entry as a patch applies it: its path checked, the entry applied, and its outcome
recorded under its dotted path. -/
def entryStep (parse : ScriptParser) (l : Locator) (entry : PatchEntry) (e : Editor) :
    Outcome (Editor × EntryOutcome) :=
  if entry.path.any (·.isEmpty) then
    .error (.invalidInput ("invalid property path '" ++ entry.dottedPath ++ "'"))
  else (applyEntryWith parse (entry.value.depth + 1) e l entry.path entry.value entry.mode).map
    fun r => (r.1, ⟨entry.dottedPath, r.2⟩)

theorem entryStep_eq_ok {l : Locator} {entry : PatchEntry} {e e' : Editor} {out : EntryOutcome}
    (stepped : entryStep parse l entry e = .ok (e', out)) :
    entry.path.any (·.isEmpty) = false ∧
      applyEntryWith parse (entry.value.depth + 1) e l entry.path entry.value entry.mode =
        .ok (e', out.outcome) := by
  unfold entryStep at stepped
  split at stepped
  · cases stepped
  · rename_i valid
    obtain ⟨r, applied, made⟩ := except_map_eq_ok.mp stepped
    cases made
    exact ⟨eq_false_of_ne_true valid, applied⟩

end Entries

/-- Some import statement of the file binds `name`. -/
def Bound (p : Parsed) (name : String) : Prop :=
  (importStatements p.root).any (fun i => (importBindings p.src .program i).contains name) = true

theorem importEdit_eq_none_iff {p : Parsed} {name module : String} :
    importEdit p name module = none ↔ Bound p name := by
  unfold importEdit Bound importStatements
  dsimp only
  constructor
  · intro none_
    split at none_
    · assumption
    · split at none_
      · cases none_
      · split at none_ <;> cases none_
  · intro bound
    rw [if_pos bound]

theorem mem_importBindingsAmong {s : Source} {parent : Kind} {name : String} {c : Node}
    (named : c.isNamed = true) (bound : name ∈ importBindings s parent c) :
    ∀ {cs : List Node}, c ∈ cs → name ∈ importBindingsAmong s parent cs
  | [], member => absurd member List.not_mem_nil
  | d :: cs, member => by
    rw [importBindingsAmong, List.mem_append]
    rcases List.mem_cons.mp member with rfl | later
    · exact .inl (by simpa [named] using bound)
    · exact .inr (mem_importBindingsAmong named bound later)

theorem mem_importBindings_of_child {s : Source} (parent : Kind) {name : String} {n c : Node}
    (notSpecifier : n.kind ≠ .importSpecifier) (child : c ∈ n.namedChildren)
    (bound : name ∈ importBindings s n.kind c) : name ∈ importBindings s parent n := by
  obtain ⟨k, f, a, b, cs⟩ := n
  have ⟨member, named⟩ := List.mem_filter.mp child
  unfold importBindings
  rw [if_neg (by simpa using notSpecifier), List.mem_append]
  exact .inr (mem_importBindingsAmong (by simpa using named) bound member)

/-- An import written as the planner writes it binds its name. -/
theorem ImportFits.binds {s : Source} {name : String} {i : Node} (fits : ImportFits s name i) :
    (importBindings s .program i).contains name = true := by
  obtain ⟨isImport, clause, inI, isClause, named, inClause, isNamed, specifier, inNamed,
    isSpecifier, unrenamed, local_, hlocal, text⟩ := fits
  have bySpecifier : name ∈ importBindings s named.kind specifier := by
    obtain ⟨k, f, a, b, cs⟩ := specifier
    simp only at isSpecifier
    subst isSpecifier
    unfold importBindings
    simp [unrenamed, hlocal, text]
  have byNamed := mem_importBindings_of_child clause.kind (by simp [isNamed]) inNamed bySpecifier
  have byClause := mem_importBindings_of_child i.kind (by simp [isClause]) inClause byNamed
  have byImport := mem_importBindings_of_child .program (by simp [isImport]) inI byClause
  simpa using byImport

theorem Bound.of_added {p p' : Parsed} {name : String} {pre post : List Node} {i : Node}
    (imports : importStatements p'.root = pre ++ i :: post)
    (kept : List.Forall₂ (Node.Same p.src p'.src) (importStatements p.root) (pre ++ post))
    (bound : Bound p name) : Bound p' name := by
  unfold Bound at bound ⊢
  rw [kept.any_eq fun _ _ same => by rw [importBindings_same .program same]] at bound
  rw [imports]
  simp only [List.any_append, List.any_cons, Bool.or_eq_true] at bound ⊢
  tauto

theorem find_of_plan {e : Editor} {l : Locator} {path : List String} {value : PatchValue}
    {mode : PatchMode} {step : Step} (planned : plan e l path value mode = .ok step) :
    ∃ x, l.find e.parsed = some x := by
  obtain ⟨x, located, -⟩ := except_bind_eq_ok.mp planned
  exact ⟨x, locate_eq_ok_iff.mp located⟩

theorem Editor.Settles.of_sameStatements {e e' : Editor} {l : Locator} {entry : PatchEntry}
    (roots : SameStatements e.parsed.src e'.parsed.src e.parsed.root e'.parsed.root)
    (settled : e.Settles l entry) : e'.Settles l entry := by
  obtain ⟨o, planned⟩ := settled
  obtain ⟨x, found⟩ := find_of_plan planned
  have agree := Locator.find_same roots l
  rw [found] at agree
  obtain ⟨x', found', same⟩ := agree.exists_of_some
  rw [plan_of_find found] at planned
  exact ⟨o, by rw [plan_of_find found']; exact walk_done_same same planned⟩

/-- What making sure of imports keeps of an editor: the parse of its text, its language and
origin, the names bound, the objects the locators find with their members, and the entries that
plan nothing. -/
structure Editor.Keeps (parse : ScriptParser) (e e' : Editor) : Prop where
  parsedBy : e'.ParsedBy parse
  language : e'.language = e.language
  origin : e'.origin = e.origin
  bound : ∀ n, Bound e.parsed n → Bound e'.parsed n
  found : ∀ l : Locator, (l.find e.parsed).isSome → (l.find e'.parsed).isSome
  settles : ∀ l entry, e.Settles l entry → e'.Settles l entry
  keepsMembers : ∀ (l : Locator) x, l.find e.parsed = some x →
    ∃ x', l.find e'.parsed = some x' ∧ MembersKept e.parsed.src e'.parsed.src [] x x'

theorem Editor.Keeps.refl {e : Editor} (parsedBy : e.ParsedBy parse) : e.Keeps parse e :=
  ⟨parsedBy, rfl, rfl, fun _ bound => bound, fun _ found => found, fun _ _ settled => settled,
    fun _ x found => ⟨x, found, .refl [] x⟩⟩

theorem Editor.Keeps.trans {e e' e'' : Editor} (first : e.Keeps parse e')
    (second : e'.Keeps parse e'') : e.Keeps parse e'' :=
  ⟨second.parsedBy, second.language.trans first.language, second.origin.trans first.origin,
    fun n bound => second.bound n (first.bound n bound),
    fun l found => second.found l (first.found l found),
    fun l entry settled => second.settles l entry (first.settles l entry settled),
    fun l x found => by
      obtain ⟨x', found', kept⟩ := first.keepsMembers l x found
      obtain ⟨x'', found'', kept'⟩ := second.keepsMembers l x' found'
      exact ⟨x'', found'', kept.trans kept'⟩⟩

/-- One import made sure of keeps the editor, and binds the name: by the import found, or by
the one the grammar reads back from the text added. -/
theorem ensureNamedImportWith_keeps (laws : GrammarLaws parse) {e e' : Editor}
    {name module : String} {out : PatchOutcome} (parsedBy : e.ParsedBy parse)
    (plain : isPlainKey name = true)
    (ensured : ensureNamedImportWith parse e name module = .ok (e', out)) :
    e.Keeps parse e' ∧ Bound e'.parsed name := by
  unfold ensureNamedImportWith at ensured
  split at ensured
  · rename_i unbound
    cases ensured
    exact ⟨.refl parsedBy, importEdit_eq_none_iff.mp unbound⟩
  · rename_i edit planned
    obtain ⟨e'', applied, made⟩ := except_bind_eq_ok.mp ensured
    cases made
    obtain ⟨parsedBy', language, origin⟩ := Editor.ParsedBy.applyWith laws applied
    obtain ⟨reparsed, -⟩ := Editor.applyWith_eq_ok applied
    obtain ⟨roots, pre, post, i, imports, kept, fits⟩ :=
      laws.add_import parsedBy plain planned reparsed
    refine ⟨⟨parsedBy', language, origin, fun _ => Bound.of_added imports kept,
      fun l found => ?_, fun _ _ => Editor.Settles.of_sameStatements roots, fun l x found => ?_⟩, ?_⟩
    · rw [← (Locator.find_same roots l).isSome_eq]
      exact found
    · have agree := Locator.find_same roots l
      rw [found] at agree
      obtain ⟨x', found', same⟩ := agree.exists_of_some
      exact ⟨x', found', .of_same same⟩
    · unfold Bound
      rw [imports, List.any_eq_true]
      exact ⟨i, by simp, fits.binds⟩

/-- One import as a patch makes sure of it, its outcome recorded as that of the import. -/
def importStep (parse : ScriptParser) (imp : NamedImport) (e : Editor) :
    Outcome (Editor × EntryOutcome) :=
  (ensureNamedImportWith parse e imp.name imp.module).map
    fun r => (r.1, ⟨"import " ++ imp.name, r.2⟩)

theorem Gathered.imports_bind (laws : GrammarLaws parse) :
    ∀ {imports : List NamedImport} {e e' : Editor} {outs : List EntryOutcome},
      Gathered (importStep parse) imports e e' outs → e.ParsedBy parse →
      (∀ imp ∈ imports, isPlainKey imp.name = true) →
      e.Keeps parse e' ∧ ∀ imp ∈ imports, Bound e'.parsed imp.name
  | _, _, _, _, .nil, parsedBy, _ => ⟨.refl parsedBy, fun _ member => absurd member List.not_mem_nil⟩
  | imp :: imports, e, e', _, .cons stepped gathered, parsedBy, plain => by
    obtain ⟨r, ensured, made⟩ := except_map_eq_ok.mp stepped
    cases made
    obtain ⟨keeps, bound⟩ := ensureNamedImportWith_keeps laws parsedBy (plain imp List.mem_cons_self)
      ensured
    obtain ⟨keepsRest, boundRest⟩ := Gathered.imports_bind laws gathered keeps.parsedBy
      fun imp member => plain imp (List.mem_cons_of_mem _ member)
    refine ⟨keeps.trans keepsRest, fun imp' member => ?_⟩
    rcases List.mem_cons.mp member with rfl | later
    · exact keepsRest.bound _ bound
    · exact boundRest imp' later

/-- Whether a patch goes on to its imports: it has no entries, or some entry did something
other than skip or stop at a value it cannot merge into. -/
def importsDue (patch : ConfigPatch) (outcomes : List EntryOutcome) : Bool :=
  patch.entries.isEmpty ||
    outcomes.any fun o => o.outcome != .skipped && o.outcome != .unmergeable

theorem patchSourceWith_eq_ok {text origin : String} {language : Language} {l : Locator}
    {patch : ConfigPatch} {r : String × List EntryOutcome}
    (patched : patchSourceWith parse text language origin l patch = .ok r) :
    ∃ e e' outs, Editor.loadWith parse text language origin = .ok e ∧ (l.find e.parsed).isSome ∧
      Gathered (entryStep parse l) patch.entries e e' outs ∧
      if importsDue patch outs then
        ∃ e'' outs', Gathered (importStep parse) patch.imports e' e'' outs' ∧
          r = (e''.text, outs ++ outs')
      else r = (e'.text, outs) := by
  unfold patchSourceWith at patched
  obtain ⟨e, loaded, patched⟩ := except_bind_eq_ok.mp patched
  obtain ⟨x, located, patched⟩ := except_bind_eq_ok.mp patched
  obtain ⟨looped, entriesRun, patched⟩ := except_bind_eq_ok.mp patched
  obtain ⟨outs, listed, gathered⟩ := forIn_gathered (f := entryStep parse l) (fun entry s acc => by
    dsimp only
    unfold entryStep
    split
    · rfl
    · cases applyEntryWith parse (entry.value.depth + 1) s l entry.path entry.value entry.mode <;>
        rfl) entriesRun
  refine ⟨e, looped.1, outs, loaded, by rw [locate_eq_ok_iff.mp located]; rfl, gathered, ?_⟩
  simp only [List.nil_append] at listed
  have due : importsDue patch outs = (patch.entries.isEmpty ||
      looped.2.any fun o => o.outcome != .skipped && o.outcome != .unmergeable) := by
    rw [listed]
    rfl
  dsimp only at patched
  split at patched
  · rename_i applied
    rw [if_pos (due.trans applied)]
    obtain ⟨ran, importsRun, returned⟩ := except_bind_eq_ok.mp patched
    obtain ⟨outs', listed', gathered'⟩ := forIn_gathered (f := importStep parse)
      (fun imp s acc => by
        dsimp only
        unfold importStep
        cases ensureNamedImportWith parse s imp.name imp.module <;> rfl) importsRun
    refine ⟨ran.1, outs', gathered', ?_⟩
    cases returned
    rw [listed', listed]
  · rename_i applied
    rw [if_neg (due ▸ applied)]
    cases patched
    rw [listed]

theorem Editor.parsedBy_of_loadWith (laws : GrammarLaws parse) {text origin : String}
    {language : Language} {e : Editor} (loaded : Editor.loadWith parse text language origin = .ok e) :
    e.ParsedBy parse := by
  obtain ⟨parsedOk, language_eq, origin_eq⟩ := Editor.loadWith_eq_ok loaded
  have textOf : e.text = text := laws.source parsedOk
  unfold Editor.ParsedBy
  rw [textOf, language_eq, origin_eq]
  exact parsedOk

theorem exists_exportedObjectAt {p : Parsed} {callee : Option String}
    (found : ((Locator.defaultExport callee).find p).isSome) :
    ∃ o, exportedObjectAt callee p = some o := by
  rw [find_defaultExport] at found
  cases h : exportedObjectAt callee p with
  | none => rw [h] at found; cases found
  | some o => exact ⟨o, rfl⟩

set_option maxRecDepth 100000 in
/-- Skipping `a`, a shorthand property of the one text the parser reads, returns the text and
reports `skipped`. -/
theorem patchSourceWith_shorthandSkip :
    patchSourceWith (readsOnly shorthandSource shorthandParsed) shorthandSource .typescript "v"
      (.defaultExport none) shorthandSkip = .ok (shorthandSource, [⟨"a", .skipped⟩]) := by
  cbv

theorem shorthandSkip_simple :
    ∀ entry ∈ shorthandSkip.entries, ∃ shape, Simple entry.value entry.mode shape := by
  simp only [shorthandSkip, List.mem_singleton, forall_eq]
  exact ⟨_, .bool true (by decide)⟩

theorem shorthandSkip_plain : ∀ imp ∈ shorthandSkip.imports, isPlainKey imp.name = true := by
  simp [shorthandSkip]

end Monorepo.Codemod
