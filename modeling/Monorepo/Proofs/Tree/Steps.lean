import Monorepo.Proofs.Tree.Staging

/-! Steps on a staged tree that keep it consistent. `Keeps step post` says that running `step` on
a consistent tree leaves a consistent tree, whether the step succeeds or fails part way, and that
its result satisfies `post` when it succeeds. The rules follow the shape of a `do` block, so a
step's proof walks its code; every write, delete and move keeps its trees consistent. -/

namespace Monorepo.TreeStep

open StagedTree Monorepo.Tree Utf8

variable {α β : Type}

@[simp] theorem runOn_pure (a : α) (t : StagedTree) :
    (Pure.pure a : TreeStep α).runOn t = (.ok a, t) := rfl

@[simp] theorem runOn_throw (e : Error) (t : StagedTree) :
    (throw e : TreeStep α).runOn t = (.error e, t) := rfl

theorem runOn_bind_ok {x : TreeStep α} {f : α → TreeStep β} {t t₁ : StagedTree} {a : α}
    (first : x.runOn t = (.ok a, t₁)) : (x >>= f).runOn t = (f a).runOn t₁ := by
  simp only [runOn] at first ⊢
  simp [ExceptT.run_bind, StateT.run_bind, first]
  rfl

theorem runOn_bind_error {x : TreeStep α} {f : α → TreeStep β} {t t₁ : StagedTree} {e : Error}
    (first : x.runOn t = (.error e, t₁)) : (x >>= f).runOn t = (.error e, t₁) := by
  simp only [runOn] at first ⊢
  simp [ExceptT.run_bind, StateT.run_bind, first]
  rfl

@[simp] theorem runOn_get (t : StagedTree) :
    (MonadState.get : TreeStep StagedTree).runOn t = (.ok t, t) := rfl

theorem runOn_query (f : StagedTree → Outcome α) (t : StagedTree) :
    (TreeStep.query f).runOn t = (f t, t) := by
  unfold TreeStep.query
  rw [runOn_bind_ok (runOn_get t)]
  cases f t <;> rfl

theorem runOn_update (f : StagedTree → Outcome StagedTree) (t : StagedTree) :
    (TreeStep.update f).runOn t = match f t with
      | .ok t' => (.ok (), t')
      | .error e => (.error e, t) := by
  unfold TreeStep.update
  rw [runOn_bind_ok (runOn_get t)]
  cases f t <;> rfl

theorem runOn_bind_eq_ok {x : TreeStep α} {f : α → TreeStep β} {t t' : StagedTree} {b : β}
    (done : (x >>= f).runOn t = (.ok b, t')) :
    ∃ a t₁, x.runOn t = (.ok a, t₁) ∧ (f a).runOn t₁ = (.ok b, t') := by
  cases first : x.runOn t with
  | mk r t₁ =>
    cases r with
    | ok a => exact ⟨a, t₁, rfl, by rwa [runOn_bind_ok first] at done⟩
    | error e =>
      rw [runOn_bind_error first] at done
      cases done

theorem runOn_query_eq_ok {f : StagedTree → Outcome α} {t t' : StagedTree} {a : α} :
    (TreeStep.query f).runOn t = (.ok a, t') ↔ f t = .ok a ∧ t = t' := by
  rw [runOn_query, Prod.mk.injEq]

theorem runOn_update_eq_ok {f : StagedTree → Outcome StagedTree} {t t' : StagedTree} :
    (TreeStep.update f).runOn t = (.ok (), t') ↔ f t = .ok t' := by
  rw [runOn_update]
  cases f t <;> simp

/-- A step that keeps every consistent tree consistent, succeeding or failing, and whose result
satisfies `post` when it succeeds. -/
def Keeps (step : TreeStep α) (post : α → Prop) : Prop :=
  ∀ t : StagedTree, t.Consistent →
    (step.runOn t).2.Consistent ∧ ∀ a, (step.runOn t).1 = .ok a → post a

namespace Keeps

theorem pure {a : α} {post : α → Prop} (holds : post a) : Keeps (Pure.pure a) post :=
  fun t consistent => ⟨consistent, fun b done => by cases done; exact holds⟩

theorem throw {e : Error} {post : α → Prop} : Keeps (throw e : TreeStep α) post :=
  fun t consistent => ⟨consistent, fun a failed => by cases failed⟩

theorem imp {x : TreeStep α} {post weaker : α → Prop} (keeps : Keeps x post)
    (implies : ∀ a, post a → weaker a) : Keeps x weaker := fun t consistent =>
  ⟨(keeps t consistent).1, fun a done => implies a ((keeps t consistent).2 a done)⟩

theorem bind {x : TreeStep α} {f : α → TreeStep β} {post : β → Prop} (mid : α → Prop)
    (first : Keeps x mid) (next : ∀ a, mid a → Keeps (f a) post) : Keeps (x >>= f) post := by
  intro t consistent
  obtain ⟨consistentMid, promised⟩ := first t consistent
  cases run : x.runOn t with
  | mk r t₁ =>
    rw [run] at consistentMid promised
    cases r with
    | ok a =>
      rw [runOn_bind_ok run]
      exact next a (promised a rfl) t₁ consistentMid
    | error e =>
      rw [runOn_bind_error run]
      exact ⟨consistentMid, fun b failed => by cases failed⟩

theorem get : Keeps (MonadState.get : TreeStep StagedTree) fun _ => True :=
  fun _ consistent => ⟨consistent, fun _ _ => trivial⟩

theorem query {f : StagedTree → Outcome α} {post : α → Prop}
    (holds : ∀ t, t.Consistent → ∀ a, f t = .ok a → post a) : Keeps (TreeStep.query f) post := by
  intro t consistent
  rw [runOn_query]
  exact ⟨consistent, holds t consistent⟩

theorem update {f : StagedTree → Outcome StagedTree}
    (keeps : ∀ t t', t.Consistent → f t = .ok t' → t'.Consistent) :
    Keeps (TreeStep.update f) fun _ => True := by
  intro t consistent
  rw [runOn_update]
  cases answer : f t with
  | ok t' => exact ⟨keeps t t' consistent answer, fun _ _ => trivial⟩
  | error e => exact ⟨consistent, fun b failed => by cases failed⟩

theorem forIn {l : List α} {body : α → PUnit.{1} → TreeStep (ForInStep PUnit)}
    (each : ∀ x ∈ l, Keeps (body x PUnit.unit) fun _ => True) :
    Keeps (forIn l PUnit.unit body) fun _ => True := by
  induction l with
  | nil => exact Keeps.pure trivial
  | cons x rest ih =>
    rw [List.forIn_cons]
    refine bind (fun _ => True) (each x (by simp)) fun r _ => ?_
    cases r with
    | done u => exact Keeps.pure trivial
    | yield u => exact ih fun y member => each y (by simp [member])

theorem mapM {l : List α} {f : α → TreeStep β} {post : β → Prop}
    (each : ∀ x ∈ l, Keeps (f x) post) : Keeps (l.mapM f) fun ys => ∀ y ∈ ys, post y := by
  induction l with
  | nil => exact Keeps.pure (by simp)
  | cons x rest ih =>
    rw [List.mapM_cons]
    refine bind post (each x (by simp)) fun y first => ?_
    refine bind (fun ys => ∀ y ∈ ys, post y) (ih fun z member => each z (by simp [member]))
      fun ys later => Keeps.pure ?_
    rintro z (_ | ⟨_, member⟩)
    · exact first
    · exact later z member

end Keeps

theorem keeps_delete (p : Path) : Keeps (update fun t => t.delete p) fun _ => True :=
  Keeps.update fun _ _ consistent deleted => consistent.after_delete deleted

theorem keeps_write {p : Path} (plain : p.Plain) (c : Bytes) :
    Keeps (update fun t => t.write p c) fun _ => True :=
  Keeps.update fun _ _ consistent written => consistent.after_write plain written

theorem keeps_moveAll {moves : List (Path × Path)} (plain : ∀ m ∈ moves, m.2.Plain) :
    Keeps (moveAll moves) fun _ => True := by
  unfold moveAll
  refine Keeps.bind (fun contents => ∀ y ∈ contents, y.1.Plain) (Keeps.mapM fun m member => ?_)
    fun contents plainContents => ?_
  · obtain ⟨old, new⟩ := m
    exact Keeps.bind (fun _ => True) (Keeps.query fun _ _ _ _ => trivial)
      fun _ _ => Keeps.pure (plain _ member)
  refine Keeps.bind (fun _ => True) (Keeps.forIn fun m _ => ?_) fun _ _ => ?_
  · obtain ⟨old, new⟩ := m
    exact Keeps.bind (fun _ => True) (keeps_delete old) fun _ _ => Keeps.pure trivial
  refine Keeps.bind (fun _ => True) (Keeps.forIn fun y member => ?_) fun _ _ => Keeps.pure trivial
  obtain ⟨new, c⟩ := y
  exact Keeps.bind (fun _ => True) (keeps_write (plainContents _ member) c)
    fun _ _ => Keeps.pure trivial

theorem keeps_rename (src : Path) {dst : Path} (plain : dst.Plain) :
    Keeps (StagedTree.rename src dst) fun _ => True := by
  unfold StagedTree.rename
  refine Keeps.bind (fun _ => True) Keeps.get fun t _ => ?_
  refine Keeps.bind (fun _ => True) (Keeps.query fun _ _ _ _ => trivial) fun _ _ => ?_
  split
  · exact Keeps.pure trivial
  dsimp only
  split
  · exact Keeps.bind (fun moves : List (Path × Path) => ∀ m ∈ moves, m.2.Plain)
      (Keeps.pure (by simpa using plain)) fun moves targets => keeps_moveAll targets
  split
  · split
    · exact Keeps.bind (fun _ => False) Keeps.throw fun _ never => never.elim
    · refine Keeps.bind (fun files => ∀ f ∈ files, f.Plain)
        (Keeps.query fun t consistent files walked f member => ?_) fun files plainFiles => ?_
      · exact (consistent.plain_of_live (live_of_walkFilesWhere walked member)).1
      refine Keeps.bind (fun moves : List (Path × Path) => ∀ m ∈ moves, m.2.Plain)
        (Keeps.pure fun m member => ?_) fun moves targets => keeps_moveAll targets
      obtain ⟨f, inFiles, rfl⟩ := List.mem_map.mp member
      exact plain.append (plainFiles f inFiles).stripPrefix
  · exact Keeps.bind (fun _ => False) Keeps.throw fun _ never => never.elim

end Monorepo.TreeStep

namespace Monorepo.StagedTree

open TreeStep Utf8

variable {t : StagedTree}

theorem delete_of_file {f : Path} (open_ : t.committed = false) (file : t.isFile f = true) :
    t.delete f = .ok (t.deleteFile f) := by
  simp [delete, ensureOpen, open_, file]

theorem rename_file_eq_ok {t' : StagedTree} {f g : Path} (file : t.isFile f = true) (other : f ≠ g)
    (renamed : (rename f g).runOn t = (.ok (), t')) :
    ∃ c, t.read f = .ok c ∧ (t.deleteFile f).write g c = .ok t' := by
  unfold rename at renamed
  rw [runOn_bind_ok (runOn_get t)] at renamed
  obtain ⟨_, _, opened, renamed⟩ := runOn_bind_eq_ok renamed
  obtain ⟨isOpen, rfl⟩ := runOn_query_eq_ok.mp opened
  dsimp only at renamed
  rw [if_neg (by simpa using other), if_pos file, runOn_bind_ok (runOn_pure _ _)] at renamed
  unfold moveAll at renamed
  simp only [List.mapM_cons, List.mapM_nil, List.forIn_cons, List.forIn_nil, bind_assoc,
    pure_bind, bind_pure_unit] at renamed
  obtain ⟨c, _, read, renamed⟩ := runOn_bind_eq_ok renamed
  obtain ⟨readOk, rfl⟩ := runOn_query_eq_ok.mp read
  obtain ⟨_, _, deleted, renamed⟩ := runOn_bind_eq_ok renamed
  have open_ : t.committed = false := by simpa [ensureOpen] using isOpen
  rw [runOn_update_eq_ok, delete_of_file open_ file] at deleted
  cases deleted
  exact ⟨c, readOk, runOn_update_eq_ok.mp renamed⟩

/-- Moving a live file of a layered tree to another path carries its bytes there and takes them
away from where they were; nothing else in the live view changes, and the tree stays layered
whatever the new path is. -/
theorem Layered.rename_file (layered : t.Layered) {f g : Path} {c : Bytes}
    (found : t.view f = some c) (other : f ≠ g) {t' : StagedTree}
    (renamed : (rename f g).runOn t = (.ok (), t')) :
    t'.Layered ∧ ∀ q, t'.view q = if q = g then some c else if q = f then none else t.view q := by
  have live : (t.view f).isSome := by simp [found]
  obtain ⟨b, readOk, written⟩ := rename_file_eq_ok (by rwa [isFile_eq_view]) other renamed
  rw [layered.read_of_live found, Except.ok.injEq] at readOk
  subst readOk
  have deleted := layered.after_deleteFile live
  refine ⟨deleted.after_write written, fun q => ?_⟩
  rw [deleted.view_write written, layered.view_deleteFile live]

end Monorepo.StagedTree
