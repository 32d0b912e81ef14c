import Mathlib
import Monorepo.Proofs.Workspace.Frame
import Monorepo.Proofs.Path.Relative

/-! Path strings in configuration follow a move. For a project at the workspace root, a text that
names a moving path (after any leading `./`) becomes the text of where that path lands, keeping
the `./` and a trailing `/`; one naming a path inside another project stays as it is. For a
nested project the rewrite works on the text's `/`-separated parts and replaces every run of
parts that spells the old root by the new root's text, unless a nested project that stays starts
there. So a text that writes a path plainly, in which the old root's segments appear only at the
start, is rewritten exactly when the path moves, to the new root followed by the rest of the path;
a run of the old root's segments further along is replaced as well, also inside another project.
Main statement: `Move.rewritePathString_follows_move`. -/

namespace Monorepo.Workspace

open StagedTree

/-- A path written plainly: its segments joined by `/`, after `./` when `dot` and with a trailing
`/` when `slash`. -/
def plainText (dot slash : Bool) (segments : List String) : String :=
  "/".intercalate ((if dot then ["."] else []) ++ segments ++ (if slash then [""] else []))

theorem slashParts_intercalate {pieces : List String} (nonempty : pieces ≠ [])
    (unslashed : ∀ s ∈ pieces, '/' ∉ s.toList) : Move.slashParts ("/".intercalate pieces) = pieces := by
  unfold Move.slashParts
  rw [String.toList_intercalate]
  have cut : ("/".toList.intercalate (pieces.map String.toList)).splitOn '/' =
      pieces.map String.toList :=
    List.splitOn_intercalate '/' (fun l member => by
      obtain ⟨s, inPieces, rfl⟩ := List.mem_map.mp member
      exact unslashed s inPieces) (by simpa using nonempty)
  rw [cut, List.map_map]
  simp

theorem parse_plainText_slash {p : Path} (plain : p.Plain) (slash : Bool) :
    Path.parse ("/".intercalate (p.segments ++ if slash then [""] else [])) = .ok p := by
  cases slash
  · simpa using Path.parse_intercalate plain
  show Path.parse ("/".intercalate (p.segments ++ [""])) = .ok p
  rcases List.eq_nil_or_concat p.segments with empty | ⟨init, last, spelled⟩
  · rw [empty, Path.eq_of_segments empty]
    rfl
  obtain ⟨first, more, startsWith⟩ := List.exists_cons_of_ne_nil (show p.segments ≠ [] by simp [spelled])
  have firstPlain := plain first (by simp [startsWith])
  obtain ⟨tail, textStarts⟩ := Path.intercalate_starts first (more ++ [""])
  have pieces : Path.textPieces ("/".intercalate (p.segments ++ [""])) = p.segments ++ [""] := by
    refine Path.textPieces_intercalate (by simp) (fun s member c inS => ?_) ?_ ?_
    · rcases List.mem_append.mp member with inP | inEmpty
      · exact ⟨((plain s inP).2.2.2.1 c inS).1, ((plain s inP).2.2.2.1 c inS).2.1⟩
      · simp at inEmpty
        simp [inEmpty] at inS
    · rw [startsWith, List.cons_append, textStarts, List.head?_append,
        Option.or_of_isSome (by simpa using firstPlain.ne_nil)]
      intro c member
      obtain ⟨c', cs, firstChars⟩ := List.exists_cons_of_ne_nil firstPlain.ne_nil
      rw [firstChars] at member
      cases member
      exact ⟨(firstPlain.2.2.2.1 c (by simp [firstChars])).1,
        firstPlain.2.2.2.2.1 c (by simp [firstChars])⟩
    · rw [show p.segments ++ [""] = (p.segments ++ [""]).dropLast ++ [""] by simp,
        String.intercalate_append_of_ne_nil (by simp [spelled]) (by simp)]
      simp [Text.isBlank]
  rw [Path.parse, Path.join_eq_pieces, pieces, Path.applySegments_append
    (Path.applySegments_plain plain)]
  rfl

theorem slashParts_plainText {p : Path} (plain : p.Plain) (dot slash : Bool)
    (nonempty : ((if dot then ["."] else []) ++ p.segments ++ if slash then [""] else []) ≠ []) :
    Move.slashParts (plainText dot slash p.segments) =
      (if dot then ["."] else []) ++ p.segments ++ if slash then [""] else [] := by
  refine slashParts_intercalate nonempty fun piece member => ?_
  simp only [List.mem_append] at member
  rcases member with (inDot | inPath) | inSlash
  · split at inDot <;> simp_all
  · exact fun inPiece => ((plain piece inPath).2.2.2.1 '/' inPiece).1 rfl
  · split at inSlash <;> simp_all

namespace Move

variable {m : Move} {old : List String} {new : String}

theorem isExcludedTail_plain {p : Path} (plain : p.Plain) (slash : Bool) :
    m.isExcludedTail (p.segments ++ if slash then [""] else []) =
      m.excluded.any (p.startsWith ·) := by
  unfold isExcludedTail
  rw [parse_plainText_slash plain slash]

theorem rewriteParts_of_guarded {parts : List String}
    (guarded : ∀ j, old <+: parts.drop j → m.isExcludedTail (parts.drop j) = true) (fuel : Nat) :
    m.rewriteParts old new parts fuel = (parts, false) := by
  induction parts generalizing fuel with
  | nil => cases fuel <;> rfl
  | cons part rest ih =>
    cases fuel with
    | zero => rfl
    | succ fuel =>
      have skipped : (old.isPrefixOf (part :: rest) && !m.isExcludedTail (part :: rest)) = false := by
        cases matched : old.isPrefixOf (part :: rest)
        · rfl
        · have claimed := guarded 0 (by simpa using List.isPrefixOf_iff_prefix.mp matched)
          rw [List.drop_zero] at claimed
          simp [claimed]
      simp only [rewriteParts, skipped, Bool.false_eq_true, if_false]
      rw [ih (fun j above => guarded (j + 1) (by simpa using above)) fuel]

theorem rewriteParts_of_skip {part : String} {rest : List String} (skipped : ¬ old <+: part :: rest)
    {fuel : Nat} (enough : 0 < fuel) :
    m.rewriteParts old new (part :: rest) fuel =
      (part :: (m.rewriteParts old new rest (fuel - 1)).1,
        (m.rewriteParts old new rest (fuel - 1)).2) := by
  obtain ⟨fuel, rfl⟩ := Nat.exists_eq_succ_of_ne_zero (Nat.pos_iff_ne_zero.mp enough)
  have unmatched : old.isPrefixOf (part :: rest) = false :=
    Bool.eq_false_iff.mpr fun matched => skipped (List.isPrefixOf_iff_prefix.mp matched)
  simp [rewriteParts, unmatched]

theorem rewriteParts_of_run {rest : List String} (nonempty : old ≠ [])
    (kept : m.isExcludedTail (old ++ rest) = false)
    (guarded : ∀ j, old <+: rest.drop j → m.isExcludedTail (rest.drop j) = true) {fuel : Nat}
    (enough : 0 < fuel) : m.rewriteParts old new (old ++ rest) fuel = (new :: rest, true) := by
  obtain ⟨fuel, rfl⟩ := Nat.exists_eq_succ_of_ne_zero (Nat.pos_iff_ne_zero.mp enough)
  obtain ⟨first, more, rfl⟩ := List.exists_cons_of_ne_nil nonempty
  have matched : (first :: more).isPrefixOf (first :: (more ++ rest)) = true :=
    List.isPrefixOf_iff_prefix.mpr (List.prefix_append _ _)
  simp only [List.cons_append] at kept
  simp only [List.cons_append, rewriteParts, matched, kept, Bool.not_false, Bool.and_true, if_true]
  rw [show (first :: (more ++ rest)).drop (first :: more).length = rest by simp,
    rewriteParts_of_guarded guarded fuel]

theorem run_of_run_slash {l : List String} (named : ∀ x ∈ old, x ≠ "") (nonempty : old ≠ [])
    {slash : Bool} {j : Nat} (run : old <+: (l ++ if slash then [""] else []).drop j) :
    j < l.length ∧ old <+: l.drop j := by
  have inside : old <+: l.drop j := by
    cases slash
    · simpa using run
    rcases le_or_gt j l.length with within | beyond
    · rw [if_pos rfl, List.drop_append_of_le_length within] at run
      rcases List.prefix_concat_iff.mp run with whole | part
      · exact absurd rfl (named "" (by simp [whole]))
      · exact part
    · rw [if_pos rfl, List.drop_eq_nil_of_le (by simp; omega)] at run
      exact absurd (List.prefix_nil.mp run) nonempty
  refine ⟨?_, inside⟩
  by_contra beyond
  rw [List.drop_eq_nil_of_le (by omega)] at inside
  exact nonempty (List.prefix_nil.mp inside)

/-- The old root's segments appear in a path's segments as a run only at their start. -/
def RootRunOnlyAtStart (m : Move) (p : Path) : Prop :=
  ∀ j, 0 < j → ¬ m.oldRoot.segments <+: p.segments.drop j

theorem RootRunOnlyAtStart.eq_zero_of_run {p : Path} (onlyStart : m.RootRunOnlyAtStart p)
    (named : ∀ x ∈ m.oldRoot.segments, x ≠ "") (offRoot : m.oldRoot.segments ≠ [])
    {slash : Bool} {j : Nat}
    (run : m.oldRoot.segments <+: (p.segments ++ if slash then [""] else []).drop j) : j = 0 := by
  obtain ⟨-, inside⟩ := run_of_run_slash named offRoot run
  by_contra later
  exact onlyStart j (Nat.pos_of_ne_zero later) inside

/-- A nested project's move rewrites a path written plainly, in which the old root's segments
appear only at the start: when the path moves, its leading run spelling the old root becomes the
new root's text and the rest is kept, with the `./` and the trailing `/`; otherwise the text is
left alone. -/
theorem rewriteNestedPath_plainText (entries : m.entries = [m.oldRoot]) (oldPlain : m.oldRoot.Plain)
    (offRoot : m.oldRoot.segments ≠ []) {p : Path} (plain : p.Plain)
    (onlyStart : m.RootRunOnlyAtStart p) (dot slash : Bool) :
    m.rewriteNestedPath (plainText dot slash p.segments) =
      if m.contains p then
        some (plainText dot slash (m.newRoot.render :: p.segments.drop m.oldRoot.length))
      else none := by
  have named : ∀ x ∈ m.oldRoot.segments, x ≠ "" := fun x member => (oldPlain x member).1
  have notDot : ¬ m.oldRoot.segments <+: "." :: (p.segments ++ if slash then [""] else []) := by
    intro run
    obtain ⟨first, more, spelled⟩ := List.exists_cons_of_ne_nil offRoot
    rw [spelled, List.cons_prefix_cons] at run
    exact (oldPlain first (by simp [spelled])).2.1 run.1
  have tail := isExcludedTail_plain (m := m) plain slash
  have atStart : ∀ j, m.oldRoot.segments <+: (p.segments ++ if slash then [""] else []).drop j →
      j = 0 := fun j run => onlyStart.eq_zero_of_run named offRoot run
  have contains : m.contains p = (p.startsWith m.oldRoot && !m.excluded.any (p.startsWith ·)) := by
    simp [Move.contains, entries]
  have parts := slashParts_plainText plain dot slash
  unfold rewriteNestedPath
  by_cases moving : m.contains p = true
  · obtain ⟨under, outside⟩ := Bool.and_eq_true_iff.mp (contains ▸ moving)
    obtain ⟨rest, spelled⟩ := Path.startsWith_iff.mp under
    have kept : m.isExcludedTail (m.oldRoot.segments ++ (rest ++ if slash then [""] else [])) =
        false := by
      rw [← List.append_assoc, spelled, tail]
      simpa using outside
    have guarded : ∀ j, m.oldRoot.segments <+: (rest ++ if slash then [""] else []).drop j →
        m.isExcludedTail ((rest ++ if slash then [""] else []).drop j) = true := by
      intro j run
      have shifted := atStart (m.oldRoot.segments.length + j)
        (by rwa [← spelled, List.append_assoc, show ∀ l : List String,
          (m.oldRoot.segments ++ l).drop (m.oldRoot.segments.length + j) = l.drop j by simp])
      exact absurd (List.eq_nil_of_length_eq_zero (by omega)) offRoot
    have restOf : p.segments.drop m.oldRoot.segments.length = rest := by simp [← spelled]
    rw [parts (by simp [← spelled, offRoot]), if_pos moving, Path.length, restOf]
    cases dot
    · simp only [Bool.false_eq_true, ↓reduceIte, List.nil_append, ← spelled, List.append_assoc,
        List.length_append]
      rw [rewriteParts_of_run offRoot kept guarded (by omega)]
      rfl
    · simp only [↓reduceIte, List.cons_append, List.nil_append, ← spelled,
        List.append_assoc, List.length_cons, List.length_append]
      rw [rewriteParts_of_skip (by simpa [← spelled] using notDot) (by omega),
        rewriteParts_of_run offRoot kept guarded (by omega)]
      rfl
  · have guardedStart : ∀ j, m.oldRoot.segments <+: (p.segments ++ if slash then [""] else []).drop j →
        m.isExcludedTail ((p.segments ++ if slash then [""] else []).drop j) = true := by
      intro j run
      obtain rfl := atStart j run
      have under : p.startsWith m.oldRoot = true :=
        Path.startsWith_iff.mpr (run_of_run_slash named offRoot run).2
      rw [List.drop_zero, tail]
      simpa [contains, under] using moving
    have guarded : ∀ j, m.oldRoot.segments <+: (slashParts (plainText dot slash p.segments)).drop j →
        m.isExcludedTail ((slashParts (plainText dot slash p.segments)).drop j) = true := by
      by_cases empty : ((if dot then ["."] else []) ++ p.segments ++ if slash then [""] else []) = []
      · have blank : plainText dot slash p.segments = "" := by simp [plainText, empty]
        intro j run
        rw [blank, show slashParts "" = [""] by rfl] at run
        obtain ⟨first, more, spelled⟩ := List.exists_cons_of_ne_nil offRoot
        rcases j with _ | j
        · rw [List.drop_zero, spelled, List.cons_prefix_cons] at run
          exact absurd run.1 (named first (by simp [spelled]))
        · simp [spelled] at run
      rw [parts empty]
      cases dot
      · simpa using guardedStart
      · intro j run
        rcases j with _ | j
        · exact absurd (by simpa using run) notDot
        · simpa using guardedStart j (by simpa using run)
    dsimp only
    rw [rewriteParts_of_guarded guarded, if_neg moving]
    rfl

/-- A text names the project's entry in the output directory: it is the output directory followed
by the project's name, or lies below that. -/
def NamesOutput (m : Move) (text : String) : Prop :=
  text = m.outputDir ++ "/" ++ m.oldName ∨
    (m.outputDir ++ "/" ++ m.oldName ++ "/").toList <+: text.toList

theorem ne_root_of_contains (offRoot : ∀ e ∈ m.entries, e ≠ Path.root) {p : Path}
    (moving : m.contains p = true) : p ≠ Path.root := by
  rintro rfl
  obtain ⟨e, entry, under⟩ := List.any_eq_true.mp (Bool.and_eq_true_iff.mp moving).1
  have empty : e.segments = [] := List.prefix_nil.mp (Path.startsWith_iff.mp under)
  exact offRoot e entry (Path.eq_of_segments empty)

/-- A root project's move rewrites a text that names a path after its leading `./`, unless the
text names the project's entry in the output directory: a moving path becomes the new root
followed by the path, with the text's `./` and trailing `/`, unless the text holds `://`; a path
that stays is left alone. -/
theorem rewriteRootPath_named (offRoot : ∀ e ∈ m.entries, e ≠ Path.root) {s : String} {p : Path}
    (named : Path.parse (stripDotSlash s) = .ok p) (notOutput : ¬ m.NamesOutput (stripDotSlash s)) :
    m.rewriteRootPath s =
      if m.contains p = true ∧ ¬ "://".toList <:+: (stripDotSlash s).toList then
        some ((if s.startsWith "./" then "./" else "") ++ (m.newRoot.append p).render ++
          if (stripDotSlash s).endsWith "/" then "/" else "")
      else none := by
  have outside : (stripDotSlash s == m.outputDir ++ "/" ++ m.oldName ||
      (stripDotSlash s).startsWith (m.outputDir ++ "/" ++ m.oldName ++ "/")) = false := by
    rw [Bool.or_eq_false_iff, beq_eq_false_iff_ne, ← Bool.not_eq_true, String.startsWith_string_iff]
    exact ⟨fun same => notOutput (.inl same), fun below => notOutput (.inr below)⟩
  unfold rewriteRootPath
  dsimp only
  rw [outside, if_neg Bool.false_ne_true]
  by_cases moving : m.contains p = true
  · have notRoot := ne_root_of_contains offRoot moving
    have written : (stripDotSlash s).isEmpty = false := by
      rw [Bool.eq_false_iff]
      intro empty
      rw [String.isEmpty_iff.mp empty] at named
      exact notRoot (Except.ok.inj named).symm
    by_cases spanned : "://".toList <:+: (stripDotSlash s).toList
    · rw [written, if_neg (show ¬(m.contains p = true ∧ ¬"://".toList <:+: (stripDotSlash s).toList)
        from fun both => both.2 spanned)]
      simp only [Bool.false_or, decide_eq_true_eq]
      rw [if_pos spanned]
    · have offRootBool : p.isRoot = false := by
        obtain ⟨segments⟩ := p
        cases segments with
        | nil => exact absurd rfl notRoot
        | cons _ _ => rfl
      rw [written, if_pos (show m.contains p = true ∧ ¬"://".toList <:+: (stripDotSlash s).toList
        from ⟨moving, spanned⟩)]
      simp only [Bool.false_or, decide_eq_true_eq]
      rw [if_neg spanned]
      simp only [Bool.false_eq_true, if_false, named, offRootBool, moving, Bool.not_true,
        Bool.or_self]
      by_cases dot : s.startsWith "./" = true <;> by_cases slash : (stripDotSlash s).endsWith "/" = true <;>
        simp [dot, slash, String.append_assoc]
  · have stays : m.contains p = false := by simpa using moving
    simp only [moving]
    split
    · rfl
    · rw [named]
      simp [stays]

variable {t : StagedTree} {config : Config.ToolConfig} {r : Registry} {name newName : String}
  {D : Path}

/-- What a planned move is made of: the old root is the root of the project found by name, the
entries lie off the root (the root itself for a nested project), and the excluded roots are those
of the projects strictly below the old root. -/
theorem plan_shape (consistent : t.Consistent) (planned : Move.plan r t config name newName D = .ok m) :
    ∃ project, r.require name = .ok project ∧ m.oldRoot = project.root ∧ m.oldName = name ∧
      m.excluded = (r.projectsBelow project.root).map (·.root) ∧
      (project.root.isRoot = false → m.entries = [project.root]) ∧
      ∀ e ∈ m.entries, e ≠ Path.root := by
  unfold Move.plan at planned
  rw [except_bind_eq_ok] at planned
  obtain ⟨project, required, planned⟩ := planned
  refine ⟨project, required, ?_⟩
  cases rootCase : project.root.isRoot
  · simp only [rootCase, Bool.false_eq_true, if_false, except_pure, except_ok_bind,
      Except.ok.injEq] at planned
    subst planned
    refine ⟨rfl, rfl, rfl, fun _ => rfl, fun e member => ?_⟩
    rw [List.mem_singleton.mp member]
    intro atRoot
    simp [atRoot, Path.isRoot, Path.root] at rootCase
  · obtain ⟨names, kids, -, -⟩ := consistent.children_spec project.root
    simp only [rootCase, if_true, kids, except_ok_bind, except_pure, Except.ok.injEq] at planned
    subst planned
    refine ⟨rfl, rfl, rfl, fun never => absurd never (by decide), fun e member => ?_⟩
    obtain ⟨n, -, rfl⟩ := List.mem_map.mp (List.mem_filter.mp member).1
    intro atRoot
    simpa [Path.root] using congrArg Path.segments atRoot

theorem contains_eq_false_of_other (consistent : t.Consistent)
    (planned : Move.plan r t config name newName D = .ok m) {other : Manifest}
    (member : other ∈ r.projects) (apart : m.oldRoot.startsWith other.root = false) {p : Path}
    (inside : p.startsWith other.root = true) : m.contains p = false := by
  obtain ⟨project, -, oldRoot, -, excluded, entries, -⟩ := plan_shape consistent planned
  by_cases under : p.startsWith m.oldRoot = true
  · have nested : other ∈ r.projectsBelow project.root := by
      rcases List.prefix_or_prefix_of_prefix (Path.startsWith_iff.mp under)
          (Path.startsWith_iff.mp inside) with below | above
      · refine List.mem_filter.mpr ⟨member, ?_⟩
        have different : other.root ≠ project.root := by
          rintro same
          rw [oldRoot, ← same, Path.startsWith_iff.mpr (List.prefix_refl _)] at apart
          cases apart
        rw [oldRoot] at below
        simp only [Bool.and_eq_true, bne_iff_ne, ne_eq]
        exact ⟨different, Path.startsWith_iff.mpr below⟩
      · rw [Path.startsWith_iff.mpr above] at apart
        cases apart
    have claimed : m.excluded.any (p.startsWith ·) = true :=
      List.any_eq_true.mpr ⟨other.root, by simpa [excluded] using ⟨other, nested, rfl⟩, inside⟩
    simp [Move.contains, claimed]
  · cases rootCase : project.root.isRoot
    · have outside : m.entries.any (p.startsWith ·) = false := by
        simp [entries rootCase, ← oldRoot, under]
      simp [Move.contains, outside]
    · exfalso
      apply under
      have empty : m.oldRoot.segments = [] := by
        simpa [oldRoot, Path.isRoot] using rootCase
      exact Path.startsWith_iff.mpr (by simp [empty])

theorem root_plain_of_built (consistent : t.Consistent) (built : Registry.build t config = .ok r)
    {project : Manifest} (member : project ∈ r.projects) : project.root.Plain := by
  have plain := (consistent.plain_of_live (Registry.build_manifests built project member)).1
  exact fun segment inRoot => plain segment (by simp [inRoot])

/-- Path strings in configuration follow a move and leave other projects alone, for every move
planned from a registry that a consistent tree gives.

For a project at the workspace root, take a text `s` that names a path `p` once its leading `./`
is dropped and that does not name the project's entry in the output directory. When `p` moves
and `s` holds no `://`, the text becomes its `./`, then the text of where `p` lands, then its
trailing `/`.

For a nested project, take the text of a path `p` written plainly, in whose segments the old
root's segments stand as a run only at the start. When `p` moves, the text becomes the new root's
text followed by the rest of `p`, with the `./` and trailing `/` it had.

In both cases, when `p` lies at or below the root of a project that does not hold the moving
root, the text is left alone. -/
theorem rewritePathString_follows_move (consistent : t.Consistent)
    (built : Registry.build t config = .ok r) (planned : Move.plan r t config name newName D = .ok m) :
    (m.oldRoot.isRoot = true → ∀ (s : String) (p : Path),
      Path.parse (stripDotSlash s) = .ok p → ¬ m.NamesOutput (stripDotSlash s) →
      (m.contains p = true → ¬ "://".toList <:+: (stripDotSlash s).toList →
        m.relocate p = some (m.newRoot.append p) ∧
        m.rewritePathString s = some ((if s.startsWith "./" then "./" else "") ++
          (m.newRoot.append p).render ++ if (stripDotSlash s).endsWith "/" then "/" else "")) ∧
      ∀ other ∈ r.projects, m.oldRoot.startsWith other.root = false →
        p.startsWith other.root = true → m.rewritePathString s = none) ∧
    (m.oldRoot.isRoot = false → ∀ (p : Path) (dot slash : Bool), p.Plain → m.RootRunOnlyAtStart p →
      (m.contains p = true →
        m.relocate p = some (m.newRoot.append ⟨p.segments.drop m.oldRoot.length⟩) ∧
        m.rewritePathString (plainText dot slash p.segments) =
          some (plainText dot slash (m.newRoot.render :: p.segments.drop m.oldRoot.length))) ∧
      ∀ other ∈ r.projects, m.oldRoot.startsWith other.root = false →
        p.startsWith other.root = true → m.rewritePathString (plainText dot slash p.segments) = none) := by
  obtain ⟨project, required, oldRoot, -, -, entries, offRoot⟩ := plan_shape consistent planned
  have below := (Move.plan_plans consistent required planned).entriesBelow
  have relocated : ∀ p, m.contains p = true →
      m.relocate p = some (m.newRoot.append ⟨p.segments.drop m.oldRoot.length⟩) := by
    intro p moving
    obtain ⟨rest, rfl, lands⟩ := relocate_of_contains below moving
    simpa [Path.append, Path.length] using lands
  have stays : ∀ other ∈ r.projects, m.oldRoot.startsWith other.root = false →
      ∀ p, p.startsWith other.root = true → m.contains p = false :=
    fun other member apart p inside => contains_eq_false_of_other consistent planned member apart inside
  refine ⟨fun rootCase s p named notOutput => ?_, fun nestedCase p dot slash plain onlyStart => ?_⟩
  · have rewritten : m.rewritePathString s = m.rewriteRootPath s := if_pos rootCase
    rw [rewritten, rewriteRootPath_named offRoot named notOutput]
    have empty : m.oldRoot.segments = [] := by simpa [Path.isRoot] using rootCase
    refine ⟨fun moving clean => ⟨?_, if_pos ⟨moving, clean⟩⟩,
      fun other member apart inside => if_neg fun both => ?_⟩
    · simpa [empty, Path.length] using relocated p moving
    · rw [stays other member apart p inside] at both
      exact Bool.false_ne_true both.1
  · have rewritten : m.rewritePathString (plainText dot slash p.segments) =
        m.rewriteNestedPath (plainText dot slash p.segments) := if_neg (by simp [nestedCase])
    have oldPlain : m.oldRoot.Plain :=
      oldRoot ▸ root_plain_of_built consistent built (Registry.require_eq_ok required).1
    have nonempty : m.oldRoot.segments ≠ [] := by simpa [Path.isRoot] using nestedCase
    rw [rewritten, rewriteNestedPath_plainText (oldRoot ▸ entries (oldRoot ▸ nestedCase)) oldPlain
      nonempty plain onlyStart]
    refine ⟨fun moving => ⟨relocated p moving, if_pos moving⟩,
      fun other member apart inside => if_neg ?_⟩
    rw [stays other member apart p inside]
    exact Bool.false_ne_true

/-- Moving the project `a` from `x` to `y` turns the text `./x/f/` into `./y/f/`. -/
theorem rewritePathString_follows_move_of_x_to_y :
    let t : StagedTree :=
      { disk := ⟨[([.text "x"], .dir),
          ([.text "x", .text "p"], .file (Utf8.encode "\x7b\"name\":\"a\"\x7d"))]⟩ }
    let config : Config.ToolConfig :=
      { workspace := { manifestFile := "p", workspaceFile := "w", tsconfigCandidates := [],
                       ignoredDirs := [], sourceExtensions := [], rootProjectEntries := [] } }
    let r : Registry := { projects := [{ name := "a", root := ⟨["x"]⟩ }] }
    let m : Move :=
      { oldName := "a", newName := "a", oldRoot := ⟨["x"]⟩, newRoot := ⟨["y"]⟩,
        entries := [⟨["x"]⟩], excluded := [], outputDir := "dist" }
    Registry.build t config = .ok r ∧ Move.plan r t config "a" "a" ⟨["y"]⟩ = .ok m ∧
      m.rewritePathString "./x/f/" = some "./y/f/" := by
  intro t config r m
  have built : Registry.build t config = .ok r := by cbv
  have planned : Move.plan r t config "a" "a" ⟨["y"]⟩ = .ok m := by cbv
  have onlyStart : m.RootRunOnlyAtStart ⟨["x", "f"]⟩ := by
    intro j pos run
    rcases j with _ | _ | j
    · omega
    · exact absurd run (by decide)
    · simp at run
  have follows := (rewritePathString_follows_move (consistent_fresh ⟨⟨by decide, by decide⟩,
    by decide, by decide⟩ {}) built planned).2 rfl ⟨["x", "f"]⟩ true true (by decide) onlyStart
  exact ⟨built, planned, (follows.1 (by decide)).2⟩

/-- A nested project's texts are rewritten at every run of the old root's segments, whatever path
they name, and a text that spells a moving path other than plainly is left alone. In a workspace
with the project `a` at `x` and the project `b` at `y`, moving `a` to `z` turns `x/x/f` into
`z/z/f`, though `x/x/f` lands at `z/x/f`; turns `y/x/f`, a path of `b`, into `y/z/f`; and leaves
`x\f` alone, though it names `x/f`, which moves to `z/f`. -/
theorem rewritePathString_rewrites_every_run :
    let t : StagedTree :=
      { disk := ⟨[([.text "x"], .dir),
          ([.text "x", .text "p"], .file (Utf8.encode "\x7b\"name\":\"a\"\x7d")),
          ([.text "y"], .dir),
          ([.text "y", .text "p"], .file (Utf8.encode "\x7b\"name\":\"b\"\x7d"))]⟩ }
    let config : Config.ToolConfig :=
      { workspace := { manifestFile := "p", workspaceFile := "w", tsconfigCandidates := [],
                       ignoredDirs := [], sourceExtensions := [], rootProjectEntries := [] } }
    let r : Registry := { projects := [{ name := "a", root := ⟨["x"]⟩ }, { name := "b", root := ⟨["y"]⟩ }] }
    let m : Move :=
      { oldName := "a", newName := "a", oldRoot := ⟨["x"]⟩, newRoot := ⟨["z"]⟩,
        entries := [⟨["x"]⟩], excluded := [], outputDir := "dist" }
    Registry.build t config = .ok r ∧ Move.plan r t config "a" "a" ⟨["z"]⟩ = .ok m ∧
      m.relocate ⟨["x", "x", "f"]⟩ = some ⟨["z", "x", "f"]⟩ ∧
      m.rewritePathString "x/x/f" = some "z/z/f" ∧
      (⟨["y", "x", "f"]⟩ : Path).startsWith ⟨["y"]⟩ = true ∧
      m.rewritePathString "y/x/f" = some "y/z/f" ∧
      Path.parse "x\\f" = .ok ⟨["x", "f"]⟩ ∧ m.relocate ⟨["x", "f"]⟩ = some ⟨["z", "f"]⟩ ∧
      m.rewritePathString "x\\f" = none :=
  ⟨by cbv, by cbv, by decide, by cbv, by decide, by cbv, by cbv, by decide, by cbv⟩

end Move

end Monorepo.Workspace
