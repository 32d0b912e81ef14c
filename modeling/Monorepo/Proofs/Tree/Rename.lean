import Mathlib
import Monorepo.Proofs.Tree.Refinement

/-! A move that fails. A move checks its source and lists its files before it touches the tree,
so a failure there leaves the tree as it was. Past that point it reads every file, deletes them
all, and then writes each at its target: a target that cannot be written, because it is the root,
a directory, or lies below a file, stops the move with every file already deleted and the earlier
targets written. Main statement: `Reached.rename_failed`. -/

namespace Monorepo.TreeStep

variable {α β : Type}

theorem runOn_bind_eq_error {x : TreeStep α} {f : α → TreeStep β} {t t' : StagedTree} {e : Error}
    (failed : (x >>= f).runOn t = (.error e, t')) :
    x.runOn t = (.error e, t') ∨ ∃ a t₁, x.runOn t = (.ok a, t₁) ∧ (f a).runOn t₁ = (.error e, t') := by
  cases first : x.runOn t with
  | mk r t₁ =>
    cases r with
    | ok a => exact .inr ⟨a, t₁, rfl, by rwa [runOn_bind_ok first] at failed⟩
    | error e' =>
      rw [runOn_bind_error first, Prod.mk.injEq, Except.error.injEq] at failed
      obtain ⟨rfl, rfl⟩ := failed
      exact .inl rfl

theorem runOn_update_bind (f : StagedTree → Outcome StagedTree) (next : Unit → TreeStep α)
    (t : StagedTree) : (update f >>= next).runOn t = match f t with
      | .ok t' => (next ()).runOn t'
      | .error e => (.error e, t) := by
  cases found : f t with
  | ok t' => exact runOn_bind_ok (by rw [runOn_update, found])
  | error e => exact runOn_bind_error (by rw [runOn_update, found])

theorem runOn_mapM_of_queries {l : List α} {F : α → TreeStep β} {t t' : StagedTree}
    {r : Outcome (List β)} (h : α → β) (each : ∀ a ∈ l, (F a).runOn t = (.ok (h a), t))
    (run : (l.mapM F).runOn t = (r, t')) : r = .ok (l.map h) ∧ t' = t := by
  induction l generalizing r t' with
  | nil =>
    rw [List.mapM_nil, runOn_pure, Prod.mk.injEq] at run
    exact ⟨run.1.symm, run.2.symm⟩
  | cons a rest ih =>
    rw [List.mapM_cons, runOn_bind_ok (each a (by simp))] at run
    cases later : (rest.mapM F).runOn t with
    | mk r' t₁ =>
      obtain ⟨rfl, rfl⟩ := ih (fun a' member => each a' (by simp [member])) later
      rw [runOn_bind_ok later, runOn_pure, Prod.mk.injEq] at run
      exact ⟨run.1.symm, run.2.symm⟩

end Monorepo.TreeStep

namespace Monorepo.StagedTree

open TreeStep Utf8

variable {t : StagedTree}

@[simp] theorem committed_deleteFile (f : Path) : (t.deleteFile f).committed = t.committed := by
  unfold deleteFile
  split <;> rfl

/-- The live view `V` once the `files` are taken away and the `done` ones have landed at their
targets, each holding the bytes it had in `V`. -/
def afterMoves (V : Path → Option Bytes) (files : List Path) (target : Path → Path)
    (done : List Path) : Path → Option Bytes :=
  done.foldl (fun W f => Function.update W (target f) (V f)) fun q => if q ∈ files then none else V q

/-- Where a move of `src` to `dst` takes a file at or below `src`: the same place below `dst`. -/
def movedTo (src dst f : Path) : Path := dst.append ((f.stripPrefix src).getD Path.root)

theorem movedTo_self (src dst : Path) : movedTo src dst src = dst := by
  simp [movedTo, Path.stripPrefix, Path.startsWith, Path.append, Path.root]

theorem write_refused (open_ : t.committed = false) {p : Path} {c : Bytes} {e : Error}
    (refused : t.write p c = .error e) :
    p.isRoot = true ∨ t.isDir p = true ∨ ∃ a ∈ p.ancestors, a.isRoot = false ∧ (t.view a).isSome := by
  by_contra allowed
  simp only [not_or, not_exists, not_and, Bool.not_eq_true] at allowed
  obtain ⟨root, dir, clear⟩ := allowed
  have written : t.write p c = .ok (t.setStaged p (.content c)) := write_eq_ok_iff.mpr ⟨open_, root, dir,
    fun a above notRoot => by rw [isFile_eq_view, clear a above notRoot], rfl⟩
  rw [refused] at written
  cases written

theorem foldl_write_moved {V W : Path → Option Bytes} {target : Path → Path} {done : List Path}
    (live : ∀ f ∈ done, (V f).isSome) :
    (done.map fun f => (target f, (V f).getD [])).foldl
        (fun (W : Path → Option Bytes) (m : Path × Bytes) => Function.update W m.1 (some m.2)) W =
      done.foldl (fun W f => Function.update W (target f) (V f)) W := by
  induction done generalizing W with
  | nil => rfl
  | cons f rest ih =>
    obtain ⟨c, found⟩ := Option.isSome_iff_exists.mp (live f (by simp))
    rw [List.map_cons, List.foldl_cons, List.foldl_cons, found, Option.getD_some]
    exact ih (fun f' member => live f' (by simp [member]))

theorem delete_of_absent {p : Path} (open_ : t.committed = false) (notFile : t.isFile p = false)
    (notDir : t.isDir p = false) : t.delete p = .ok t := by
  simp [delete, ensureOpen, open_, notFile, notDir]

/-- Deleting files that were live in the view `V`, one after another and some perhaps more than
once, once the files `gone` are already deleted: a file still live is taken out of the view, and
one already gone stands neither as a file nor as a directory, since nothing was live below it, so
deleting it again changes nothing. The induction is on the moves, with the files gone so far. -/
theorem runOn_forIn_deletes {V : Path → Option Bytes} {l : List (Path × Path)}
    {body : Path × Path → PUnit → TreeStep (ForInStep PUnit)}
    (step : ∀ m u, (body m PUnit.unit).runOn u = match u.delete m.1 with
      | .ok u' => (.ok (.yield PUnit.unit), u')
      | .error e => (.error e, u))
    (live : ∀ m ∈ l, (V m.1).isSome) (separate : ∀ f q, (V f).isSome → q.IsBelow f → V q = none)
    (rootDead : V Path.root = none) {gone : List Path} (layered : t.Layered)
    (open_ : t.committed = false) (view : ∀ q, t.view q = if q ∈ gone then none else V q)
    {r : Outcome PUnit} {u : StagedTree} (run : (forIn l PUnit.unit body).runOn t = (r, u)) :
    r = .ok PUnit.unit ∧ u.Layered ∧ u.committed = false ∧
      ∀ q, u.view q = if q ∈ gone ++ l.map (·.1) then none else V q := by
  induction l generalizing t gone with
  | nil =>
    rw [List.forIn_nil, runOn_pure, Prod.mk.injEq] at run
    obtain ⟨rfl, rfl⟩ := run
    exact ⟨rfl, layered, open_, by simpa using view⟩
  | cons m rest ih =>
    have liveM := live m List.mem_cons_self
    have liveRest : ∀ m' ∈ rest, (V m'.1).isSome := fun m' member =>
      live m' (List.mem_cons_of_mem _ member)
    rw [List.forIn_cons] at run
    by_cases already : m.1 ∈ gone
    · have deadM : t.view m.1 = none := by rw [view, if_pos already]
      have notDir : t.isDir m.1 = false := by
        cases dir : t.isDir m.1 with
        | false => rfl
        | true =>
          rcases layered.isDir_iff.mp dir with root | ⟨q, under, liveQ⟩
          · rw [root, rootDead] at liveM
            cases liveM
          · rw [view] at liveQ
            split at liveQ
            · cases liveQ
            · rw [separate m.1 q liveM under] at liveQ
              cases liveQ
      have deleted := delete_of_absent open_ (by rw [isFile_eq_view, deadM]; rfl) notDir
      rw [runOn_bind_ok (by rw [step, deleted])] at run
      obtain ⟨done, layeredU, openU, viewU⟩ := ih liveRest layered open_ view run
      refine ⟨done, layeredU, openU, fun q => ?_⟩
      rw [viewU q]
      refine if_congr ?_ rfl rfl
      simp only [List.map_cons, List.mem_append, List.mem_cons]
      constructor
      · rintro (inGone | inRest)
        · exact .inl inGone
        · exact .inr (.inr inRest)
      · rintro (inGone | rfl | inRest)
        · exact .inl inGone
        · exact .inl already
        · exact .inr inRest
    · have liveT : (t.view m.1).isSome := by rw [view, if_neg already]; exact liveM
      have deleted : t.delete m.1 = .ok (t.deleteFile m.1) :=
        delete_of_file open_ (by rw [isFile_eq_view]; exact liveT)
      have view₁ : ∀ q, (t.deleteFile m.1).view q = if q ∈ gone ++ [m.1] then none else V q := by
        intro q
        rw [layered.view_deleteFile liveT, view]
        by_cases here : q = m.1 <;> simp [here]
      rw [runOn_bind_ok (by rw [step, deleted])] at run
      obtain ⟨done, layeredU, openU, viewU⟩ := ih liveRest (layered.after_deleteFile liveT)
        (by rw [committed_deleteFile, open_]) view₁ run
      refine ⟨done, layeredU, openU, fun q => ?_⟩
      rw [viewU q, List.map_cons, List.append_assoc, List.singleton_append]

/-- Writing files one after another stops at the first write refused: the writes before it have
each set their path, and the tree left is the one that write refused. The induction is on the
files. -/
theorem runOn_forIn_writes_error {l : List (Path × Bytes)}
    {body : Path × Bytes → PUnit → TreeStep (ForInStep PUnit)}
    (step : ∀ m u, (body m PUnit.unit).runOn u = match u.write m.1 m.2 with
      | .ok u' => (.ok (.yield PUnit.unit), u')
      | .error e => (.error e, u))
    (layered : t.Layered) {e : Error} {t' : StagedTree}
    (failed : (forIn l PUnit.unit body).runOn t = (.error e, t')) :
    t'.Layered ∧ t'.committed = t.committed ∧
      ∃ done m rest, l = done ++ m :: rest ∧ t'.write m.1 m.2 = .error e ∧
      ∀ q, t'.view q =
        done.foldl (fun (W : Path → Option Bytes) (m : Path × Bytes) => Function.update W m.1 (some m.2))
          t.view q := by
  induction l generalizing t with
  | nil =>
    rw [List.forIn_nil, runOn_pure] at failed
    cases failed
  | cons m rest ih =>
    rw [List.forIn_cons] at failed
    cases written : t.write m.1 m.2 with
    | error e' =>
      rw [runOn_bind_error (by rw [step, written])] at failed
      obtain ⟨⟨⟩, rfl⟩ := Prod.mk.inj failed
      exact ⟨layered, rfl, [], m, rest, rfl, written, fun q => rfl⟩
    | ok u =>
      rw [runOn_bind_ok (by rw [step, written])] at failed
      obtain ⟨layered', kept, done, m', rest', split, refused, view'⟩ :=
        ih (layered.after_write written) failed
      have keptU : u.committed = t.committed := by
        obtain ⟨-, -, -, -, rfl⟩ := write_eq_ok_iff.mp written
        rfl
      have viewU : u.view = Function.update t.view m.1 (some m.2) := funext fun q => by
        rw [layered.view_write written q, Function.update_apply]
      refine ⟨layered', kept.trans keptU, m :: done, m', rest', by rw [split]; rfl, refused,
        fun q => ?_⟩
      rw [view' q, viewU]
      rfl

/-- A move of live files of a layered open tree, some perhaps listed twice, reads and deletes
them all without failing, so it fails only writing a target: then every file is gone, the targets
of the files before the refused one hold their bytes, and the tree left is the one that write
refused. -/
theorem moveAll_eq_error (layered : t.Layered) (open_ : t.committed = false)
    {files : List Path} {target : Path → Path}
    (live : ∀ f ∈ files, (t.view f).isSome) {e : Error} {t' : StagedTree}
    (failed : (moveAll (files.map fun f => (f, target f))).runOn t = (.error e, t')) :
    t'.committed = false ∧ ∃ done f rest c, files = done ++ f :: rest ∧ t.view f = some c ∧
      t'.write (target f) c = .error e ∧ ∀ q, t'.view q = afterMoves t.view files target done q := by
  unfold moveAll at failed
  have sources : (files.map fun f => (f, target f)).map (·.1) = files := by
    simp [Function.comp_def]
  have liveMoves : ∀ m ∈ files.map (fun f => (f, target f)), (t.view m.1).isSome := by
    intro m member
    obtain ⟨f, inFiles, rfl⟩ := List.mem_map.mp member
    exact live f inFiles
  have reads : ∀ m ∈ files.map (fun f => (f, target f)),
      (do return (m.2, ← TreeStep.query fun t => t.read m.1)).runOn t =
        (.ok (m.2, (t.view m.1).getD []), t) := by
    intro m member
    obtain ⟨c, found⟩ := Option.isSome_iff_exists.mp (liveMoves m member)
    rw [runOn_bind_ok (by rw [runOn_query, layered.read_of_live found])]
    simp [found]
  have fromStart : ∀ q, t.view q = if q ∈ ([] : List Path) then none else t.view q := by simp
  rcases runOn_bind_eq_error failed with readFailed | ⟨contents, t₁, listed, failed⟩
  · obtain ⟨wrong, -⟩ := runOn_mapM_of_queries _ reads readFailed
    cases wrong
  obtain ⟨listed, rfl⟩ := runOn_mapM_of_queries _ reads listed
  cases listed
  rcases runOn_bind_eq_error failed with deleteFailed | ⟨_, t₂, deletes, failed⟩
  · obtain ⟨wrong, -⟩ := runOn_forIn_deletes (fun m u => runOn_update_bind _ _ u) liveMoves
      layered.separate layered.view_root layered open_ fromStart deleteFailed
    cases wrong
  obtain ⟨-, layered₂, open₂, view₂⟩ := runOn_forIn_deletes (fun m u => runOn_update_bind _ _ u)
    liveMoves layered.separate layered.view_root layered open_ fromStart deletes
  rw [List.nil_append, sources] at view₂
  obtain failed | ⟨_, _, _, finished⟩ := runOn_bind_eq_error failed
  case inr =>
    rw [runOn_pure] at finished
    cases finished
  obtain ⟨-, kept, written, w, rest, split, refused, view'⟩ :=
    runOn_forIn_writes_error (fun m u => runOn_update_bind _ _ u) layered₂ failed
  rw [List.map_map] at split
  obtain ⟨done, rest', rfl, rfl, mapped⟩ := List.map_eq_append_iff.mp split
  obtain ⟨f, restFiles, rfl, rfl, rfl⟩ := List.map_eq_cons_iff.mp mapped
  obtain ⟨c, found⟩ := Option.isSome_iff_exists.mp (live f (by simp))
  refine ⟨kept.trans open₂, done, f, restFiles, c, rfl, found,
    by simpa only [Function.comp, found, Option.getD_some] using refused, fun q => ?_⟩
  rw [view' q, show t₂.view = _ from funext view₂]
  exact congrFun (foldl_write_moved fun d member => live d (by simp [member])) q

/-- Why a move is refused before it touches the tree: the tree is committed, nothing is at or
below the source, the source is a directory that would move into itself (or is the root), or the
walk that lists the files below the source fails. -/
inductive RefusedMove (t : StagedTree) (src dst : Path) : Error → Prop
  | committed : t.committed = true → RefusedMove t src dst .alreadyCommitted
  | missing : t.committed = false → t.isFile src = false → t.isDir src = false →
      RefusedMove t src dst (.notFound "Path" src.render)
  | intoItself : t.committed = false → t.isFile src = false → t.isDir src = true →
      (src.isRoot || dst.startsWith src) = true →
      RefusedMove t src dst (.invalidInput s!"Cannot move {src.render} into itself ({dst.render})")
  | unlisted {e : Error} : t.committed = false → t.isFile src = false → t.isDir src = true →
      (src.isRoot || dst.startsWith src) = false → t.walkFiles src = .error e →
      RefusedMove t src dst e

/-- A move runs its checks on the tree as it is: it is refused with the tree unchanged, or is
nothing to do, or is a `moveAll` of the files the walk from its source lists, each to the same
place below its target. -/
theorem rename_runOn (src dst : Path) :
    (∃ e, (rename src dst).runOn t = (.error e, t) ∧ RefusedMove t src dst e) ∨
    (src = dst ∧ (rename src dst).runOn t = (.ok (), t)) ∨
    ∃ files : List Path, t.committed = false ∧ t.walkFiles src = .ok files ∧
      (rename src dst).runOn t = (moveAll (files.map fun f => (f, movedTo src dst f))).runOn t := by
  unfold rename
  rw [runOn_bind_ok (runOn_get t)]
  cases open_ : t.committed
  case true =>
    refine .inl ⟨.alreadyCommitted, ?_, .committed open_⟩
    rw [runOn_bind_error (by rw [runOn_query, ensureOpen, open_]; rfl)]
  rw [runOn_bind_ok (by rw [runOn_query, ensureOpen, open_]; rfl)]
  dsimp only
  by_cases same : src = dst
  · exact .inr (.inl ⟨same, by rw [if_pos (beq_iff_eq.mpr same)]; rfl⟩)
  rw [if_neg (by simpa using same)]
  cases file : t.isFile src
  case true =>
    refine .inr (.inr ⟨[src], rfl, walkFiles_of_live (by rwa [← isFile_eq_view]), ?_⟩)
    rw [if_pos rfl, runOn_bind_ok (runOn_pure _ _), List.map_singleton, movedTo_self]
  rw [if_neg Bool.false_ne_true]
  cases dir : t.isDir src
  case false =>
    refine .inl ⟨_, ?_, .missing open_ file dir⟩
    rw [if_neg Bool.false_ne_true]
    exact runOn_bind_error (runOn_throw _ _)
  rw [if_pos rfl]
  cases into : (src.isRoot || dst.startsWith src)
  case true => exact .inl ⟨_, runOn_bind_error (runOn_throw _ _), .intoItself open_ file dir into⟩
  rw [if_neg Bool.false_ne_true]
  cases walked : t.walkFiles src with
  | error e =>
    refine .inl ⟨e, ?_, .unlisted open_ file dir into walked⟩
    rw [runOn_bind_error (by rw [runOn_query, walked])]
  | ok files =>
    refine .inr (.inr ⟨files, rfl, rfl, ?_⟩)
    rw [runOn_bind_ok (by rw [runOn_query, walked]), runOn_bind_ok (runOn_pure _ _)]
    rfl

/-- A failed move is refused with the tree unchanged, or fails writing the target of one of the
files the walk from its source lists, in the walk's order: by then every listed file has left the
live view, the files before it are at their targets with their bytes, every other path reads as
before, and the refused target is the root, a directory, or lies below a file. Nothing is put
back. The listed files are live; when the session's paths are plain they are exactly the live
files at or below the source, in path order. -/
theorem Reached.rename_failed (reached : t.Reached) {src dst : Path} {e : Error}
    {t' : StagedTree} (failed : (rename src dst).runOn t = (.error e, t')) :
    (t' = t ∧ RefusedMove t src dst e) ∨
    ∃ files done f rest c, t.walkFiles src = .ok files ∧ files = done ++ f :: rest ∧
      (∀ g ∈ files, (t.view g).isSome) ∧
      (t.Consistent → files.Pairwise (fun a b => a.lt b = true) ∧
        ∀ q, q ∈ files ↔ (t.view q).isSome ∧ q.startsWith src = true) ∧
      t.view f = some c ∧ t'.write (movedTo src dst f) c = .error e ∧
      ((movedTo src dst f).isRoot = true ∨ t'.isDir (movedTo src dst f) = true ∨
        ∃ a ∈ (movedTo src dst f).ancestors, a.isRoot = false ∧ (t'.view a).isSome) ∧
      ∀ q, t'.view q = afterMoves t.view files (movedTo src dst) done q := by
  have layered := reached.layered
  rcases rename_runOn (t := t) src dst with ⟨e', refused, why⟩ | ⟨-, done⟩ |
    ⟨files, open_, walked, moving⟩
  · rw [refused, Prod.mk.injEq, Except.error.injEq] at failed
    obtain ⟨rfl, rfl⟩ := failed
    exact .inl ⟨rfl, why⟩
  · rw [done] at failed
    cases failed
  · have live : ∀ g ∈ files, (t.view g).isSome := fun g member =>
      live_of_walkFilesWhere walked member
    rw [moving] at failed
    obtain ⟨kept, done, f, rest, c, split, found, refused, view'⟩ :=
      moveAll_eq_error layered open_ live failed
    refine .inr ⟨files, done, f, rest, c, walked, split, live, fun consistent => ?_, found,
      refused, write_refused kept refused, view'⟩
    obtain ⟨files', walked', -, listed⟩ := consistent.walkFiles_spec src
    rw [walked, Except.ok.injEq] at walked'
    subst walked'
    refine ⟨?_, listed⟩
    by_cases liveSrc : (t.view src).isSome
    · rw [walkFiles_of_live liveSrc, Except.ok.injEq] at walked
      rw [← walked]
      exact List.pairwise_singleton _ _
    · obtain ⟨sorted, walkedDead, pairwise, -⟩ := consistent.walkFiles_of_dead (by simpa using liveSrc)
      rw [walked, Except.ok.injEq] at walkedDead
      rw [walkedDead]
      exact pairwise

/-- Moving `a` below the file `b`: the move fails, and `a` is gone. -/
theorem rename_below_file_loses_source :
    ({ disk := ⟨[([.text "a"], .file [120]), ([.text "b"], .file [121])]⟩ } : StagedTree).Reached ∧
      ((rename ⟨["a"]⟩ ⟨["b", "c"]⟩).runOn
        { disk := ⟨[([.text "a"], .file [120]), ([.text "b"], .file [121])]⟩ }).1 =
        .error (.invalidInput "Cannot write b/c: b is a file") ∧
      ({ disk := ⟨[([.text "a"], .file [120]), ([.text "b"], .file [121])]⟩ } : StagedTree).view
        ⟨["a"]⟩ = some [120] ∧
      ((rename ⟨["a"]⟩ ⟨["b", "c"]⟩).runOn
        { disk := ⟨[([.text "a"], .file [120]), ([.text "b"], .file [121])]⟩ }).2.view ⟨["a"]⟩ =
        none :=
  ⟨.fresh ⟨⟨by decide, by decide⟩, by decide, by decide⟩ {}, by cbv, by cbv, by cbv⟩

/-- The failed move of `a` below the file `b` fails at its one file, `a`. -/
theorem rename_below_file_fails_at_target :
    let t : StagedTree := { disk := ⟨[([.text "a"], .file [120]), ([.text "b"], .file [121])]⟩ }
    let t' := ((rename ⟨["a"]⟩ ⟨["b", "c"]⟩).runOn t).2
    let e : Error := .invalidInput "Cannot write b/c: b is a file"
    (t' = t ∧ RefusedMove t ⟨["a"]⟩ ⟨["b", "c"]⟩ e) ∨
    ∃ files done f rest c, t.walkFiles ⟨["a"]⟩ = .ok files ∧ files = done ++ f :: rest ∧
      (∀ g ∈ files, (t.view g).isSome) ∧
      (t.Consistent → files.Pairwise (fun a b => a.lt b = true) ∧
        ∀ q, q ∈ files ↔ (t.view q).isSome ∧ q.startsWith ⟨["a"]⟩ = true) ∧
      t.view f = some c ∧ t'.write (movedTo ⟨["a"]⟩ ⟨["b", "c"]⟩ f) c = .error e ∧
      ((movedTo ⟨["a"]⟩ ⟨["b", "c"]⟩ f).isRoot = true ∨
        t'.isDir (movedTo ⟨["a"]⟩ ⟨["b", "c"]⟩ f) = true ∨
        ∃ a ∈ (movedTo ⟨["a"]⟩ ⟨["b", "c"]⟩ f).ancestors, a.isRoot = false ∧ (t'.view a).isSome) ∧
      ∀ q, t'.view q = afterMoves t.view files (movedTo ⟨["a"]⟩ ⟨["b", "c"]⟩) done q := by
  intro t t' e
  exact Reached.rename_failed (.fresh ⟨⟨by decide, by decide⟩, by decide, by decide⟩ {})
    (Prod.ext (by cbv) rfl)

end Monorepo.StagedTree
