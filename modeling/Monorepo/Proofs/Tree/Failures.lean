import Monorepo.Proofs.Tree.Steps
import Monorepo.Tree.Json

/-! How the operations of a staged tree fail. Reading, listing, walking, writing, deleting and
moving files fail only as files do: a path is absent or not valid, a file does not read, a write
is refused, the tree is committed, or the system reports a failure. `FailsWith allowed x` says
that every failure of `x` is one that `allowed` admits; its rules follow the shape of a `do`
block, so each operation's lemma walks its code. -/

namespace Monorepo

open StagedTree Monorepo.Tree Utf8

/-- The failures of reading and staging files: an absent file or path, a file that does not
read, a committed tree, a path that is not valid, a refused write, or the file system. -/
def Error.OfFiles : Error → Prop
  | .notFound .. => True
  | .parse .. => True
  | .alreadyCommitted => True
  | .invalidPath .. => True
  | .invalidInput _ => True
  | .io _ => True
  | _ => False

/-- Every failure of `x` is one that `allowed` admits. -/
def FailsWith {α : Type} (allowed : Error → Prop) (x : Outcome α) : Prop :=
  ∀ e, x = .error e → allowed e

namespace FailsWith

variable {α β γ : Type} {allowed : Error → Prop}

theorem ok (a : α) : FailsWith allowed (.ok a) := fun _ failed => by cases failed

theorem error {e : Error} (admitted : allowed e) : FailsWith allowed (.error e : Outcome α) :=
  fun _ failed => by
    cases failed
    exact admitted

theorem bind {x : Outcome α} {f : α → Outcome β} (first : FailsWith allowed x)
    (next : ∀ a, x = .ok a → FailsWith allowed (f a)) : FailsWith allowed (x >>= f) := by
  cases found : x with
  | ok a => exact next a found
  | error e => exact error (first e found)

theorem map {x : Outcome α} (f : α → β) (first : FailsWith allowed x) :
    FailsWith allowed (f <$> x) := by
  cases found : x with
  | ok a => exact ok _
  | error e => exact error (first e found)

theorem mapM {l : List α} {f : α → Outcome β} (each : ∀ a ∈ l, FailsWith allowed (f a)) :
    FailsWith allowed (l.mapM f) := by
  induction l with
  | nil => exact ok []
  | cons a rest ih =>
    rw [List.mapM_cons]
    exact bind (each a (by simp)) fun b _ =>
      bind (ih fun a' member => each a' (by simp [member])) fun bs _ => ok _

theorem filterMapM {l : List α} {f : α → Outcome (Option β)}
    (each : ∀ a ∈ l, FailsWith allowed (f a)) : FailsWith allowed (l.filterMapM f) := by
  induction l with
  | nil => exact ok []
  | cons a rest ih =>
    have later := ih fun a' member => each a' (by simp [member])
    rw [List.filterMapM_cons]
    refine bind (each a (by simp)) fun kept _ => ?_
    cases kept with
    | none => exact later
    | some b => exact bind later fun bs _ => ok _

theorem flatMapM {l : List α} {f : α → Outcome (List β)} (each : ∀ a ∈ l, FailsWith allowed (f a)) :
    FailsWith allowed (l.flatMapM f) := by
  induction l with
  | nil => exact ok []
  | cons a rest ih =>
    rw [List.flatMapM_cons]
    exact bind (each a (by simp)) fun bs _ =>
      bind (ih fun a' member => each a' (by simp [member])) fun more _ => ok _

theorem forIn {l : List α} {init : β} {body : α → β → Outcome (ForInStep β)}
    (each : ∀ a ∈ l, ∀ b, FailsWith allowed (body a b)) : FailsWith allowed (forIn l init body) := by
  induction l generalizing init with
  | nil => exact ok init
  | cons a rest ih =>
    rw [List.forIn_cons]
    refine bind (each a (by simp) init) fun step _ => ?_
    cases step with
    | done b => exact ok b
    | yield b => exact ih fun a' member => each a' (by simp [member])

theorem imp {x : Outcome α} {weaker : Error → Prop} (fails : FailsWith allowed x)
    (implies : ∀ e, allowed e → weaker e) : FailsWith weaker x :=
  fun e failed => implies e (fails e failed)

end FailsWith

theorem Path.applySegments_failsWith (original : String) (acc rest : List String) :
    FailsWith Error.OfFiles (Path.applySegments original acc rest) := by
  induction rest generalizing acc with
  | nil => exact FailsWith.ok acc
  | cons s rest ih =>
    unfold Path.applySegments
    split
    · exact ih acc
    split
    · split
      · exact FailsWith.error trivial
      · exact ih _
    split
    · exact FailsWith.error trivial
    · exact ih _

theorem Path.join_failsWith (p : Path) (other : String) :
    FailsWith Error.OfFiles (p.join other) :=
  FailsWith.map Path.mk (Path.applySegments_failsWith _ _ _)

namespace StagedTree

variable (t : StagedTree)

theorem ensureOpen_failsWith : FailsWith Error.OfFiles t.ensureOpen := by
  unfold ensureOpen
  split
  · exact FailsWith.error trivial
  · exact FailsWith.ok ()

theorem read_failsWith (p : Path) : FailsWith Error.OfFiles (t.read p) := by
  intro e failed
  unfold read at failed
  repeat' split at failed
  all_goals cases failed <;> trivial

theorem readToString_failsWith (p : Path) : FailsWith Error.OfFiles (t.readToString p) := by
  unfold readToString
  refine FailsWith.bind (t.read_failsWith p) fun bytes _ => ?_
  split
  · exact FailsWith.ok _
  · exact FailsWith.error trivial

theorem readJson_failsWith (p : Path) : FailsWith Error.OfFiles (t.readJson p) := by
  unfold readJson
  refine FailsWith.bind (t.readToString_failsWith p) fun content _ => ?_
  split
  · exact FailsWith.error trivial
  · exact FailsWith.error trivial
  · exact FailsWith.ok _

theorem readJsonAs_failsWith {α : Type} (p : Path) (decode : Json.Value → Except String α) :
    FailsWith Error.OfFiles (t.readJsonAs p decode) := by
  unfold readJsonAs
  refine FailsWith.bind (t.readJson_failsWith p) fun document _ => ?_
  split
  · exact FailsWith.ok _
  · exact FailsWith.error trivial

theorem write_failsWith (p : Path) (content : Bytes) :
    FailsWith Error.OfFiles (t.write p content) := by
  unfold write
  refine FailsWith.bind (t.ensureOpen_failsWith) fun _ _ => ?_
  dsimp only
  have checked : FailsWith Error.OfFiles (forIn ((List.range p.length).reverse.map fun k =>
      (⟨p.segments.take k⟩ : Path)) PUnit.unit fun dir _ =>
        if (!dir.isRoot && t.isFile dir) = true then do
          throw (Error.invalidInput s!"Cannot write {p.render}: {dir.render} is a file")
          pure (ForInStep.yield PUnit.unit)
        else pure (ForInStep.yield PUnit.unit)) := by
    refine FailsWith.forIn fun dir _ u => ?_
    split
    · exact FailsWith.bind (FailsWith.error trivial) fun _ thrown => nomatch thrown
    · exact FailsWith.ok _
  split
  · exact FailsWith.bind (FailsWith.error trivial) fun _ thrown => nomatch thrown
  split
  · exact FailsWith.bind (FailsWith.error trivial) fun _ thrown => nomatch thrown
  · exact FailsWith.bind checked fun _ _ => FailsWith.ok _

theorem writeJson_failsWith (p : Path) (v : Json.Value) :
    FailsWith Error.OfFiles (t.writeJson p v) :=
  t.write_failsWith p _

theorem children_failsWith (dir : Path) : FailsWith Error.OfFiles (t.children dir) := by
  unfold children
  dsimp only
  have listed : ∀ fromDisk : List String, FailsWith Error.OfFiles
      ((((fromDisk ++ (t.stagedFilesBelow dir).filterMap fun p => p.segments[dir.length]?).mergeSort
        fun a b => decide (a ≤ b)).eraseDups).mapM dir.join) :=
    fun _ => FailsWith.mapM fun name _ => dir.join_failsWith name
  split
  · split
    · exact FailsWith.bind (FailsWith.error trivial) fun _ thrown => nomatch thrown
    · refine FailsWith.bind (FailsWith.filterMapM fun name _ => ?_) fun fromDisk _ => listed fromDisk
      exact FailsWith.bind (dir.join_failsWith name) fun _ _ => FailsWith.ok _
  · exact listed []

theorem walkFilesWhere_failsWith (dir : Path) (descend : Path → Bool) :
    FailsWith Error.OfFiles (t.walkFilesWhere dir descend) := by
  unfold walkFilesWhere
  split
  · exact FailsWith.ok _
  suffices going : ∀ fuel d, FailsWith Error.OfFiles (walkFilesWhere.go t descend fuel d) from
    going _ dir
  intro fuel
  induction fuel with
  | zero => intro d; exact FailsWith.ok []
  | succ fuel ih =>
    intro d
    refine FailsWith.bind (t.children_failsWith d) fun kids _ => FailsWith.flatMapM fun child _ => ?_
    split
    · exact FailsWith.ok _
    split
    · exact ih child
    · exact FailsWith.ok []

theorem walkFiles_failsWith (dir : Path) : FailsWith Error.OfFiles (t.walkFiles dir) :=
  t.walkFilesWhere_failsWith dir _

theorem delete_failsWith (p : Path) : FailsWith Error.OfFiles (t.delete p) := by
  unfold delete
  refine FailsWith.bind (t.ensureOpen_failsWith) fun _ _ => ?_
  split
  · exact FailsWith.ok _
  split
  · exact FailsWith.bind (t.walkFiles_failsWith p) fun _ _ => FailsWith.ok _
  · exact FailsWith.ok _

end StagedTree

/-- Every failure of a step, on whatever tree it runs, is one that `allowed` admits. -/
def TreeStep.FailsWith {α : Type} (allowed : Error → Prop) (step : TreeStep α) : Prop :=
  ∀ t, Monorepo.FailsWith allowed (step.runOn t).1

namespace TreeStep.FailsWith

variable {α β : Type} {allowed : Error → Prop}

theorem pure (a : α) : TreeStep.FailsWith allowed (Pure.pure a) :=
  fun t => by
    rw [runOn_pure]
    exact .ok a

theorem throw {e : Error} (admitted : allowed e) :
    TreeStep.FailsWith allowed (MonadExcept.throw e : TreeStep α) :=
  fun t => by
    rw [runOn_throw]
    exact .error admitted

theorem get : TreeStep.FailsWith allowed (MonadState.get : TreeStep StagedTree) :=
  fun t => by
    rw [runOn_get]
    exact .ok t

theorem bind {x : TreeStep α} {f : α → TreeStep β} (first : TreeStep.FailsWith allowed x)
    (next : ∀ a, TreeStep.FailsWith allowed (f a)) : TreeStep.FailsWith allowed (x >>= f) := by
  intro t
  cases run : x.runOn t with
  | mk r t₁ =>
    cases r with
    | ok a =>
      rw [runOn_bind_ok run]
      exact next a t₁
    | error e =>
      rw [runOn_bind_error run]
      exact .error (first t e (by rw [run]))

theorem query {f : StagedTree → Outcome α} (each : ∀ t, Monorepo.FailsWith allowed (f t)) :
    TreeStep.FailsWith allowed (TreeStep.query f) := fun t => by
  rw [runOn_query]
  exact each t

theorem update {f : StagedTree → Outcome StagedTree}
    (each : ∀ t, Monorepo.FailsWith allowed (f t)) : TreeStep.FailsWith allowed (TreeStep.update f) :=
  fun t => by
    rw [runOn_update]
    cases found : f t with
    | ok t' => exact .ok ()
    | error e => exact .error (each t e found)

theorem forIn {l : List α} {body : α → PUnit.{1} → TreeStep (ForInStep PUnit)}
    (each : ∀ a ∈ l, TreeStep.FailsWith allowed (body a PUnit.unit)) :
    TreeStep.FailsWith allowed (forIn l PUnit.unit body) := by
  induction l with
  | nil => exact pure PUnit.unit
  | cons a rest ih =>
    rw [List.forIn_cons]
    refine bind (each a (by simp)) fun step => ?_
    cases step with
    | done u => exact pure u
    | yield u => exact ih fun a' member => each a' (by simp [member])

theorem mapM {l : List α} {f : α → TreeStep β} (each : ∀ a ∈ l, TreeStep.FailsWith allowed (f a)) :
    TreeStep.FailsWith allowed (l.mapM f) := by
  induction l with
  | nil => exact pure []
  | cons a rest ih =>
    rw [List.mapM_cons]
    exact bind (each a (by simp)) fun b =>
      bind (ih fun a' member => each a' (by simp [member])) fun bs => pure _

end TreeStep.FailsWith

namespace StagedTree

theorem moveAll_failsWith (moves : List (Path × Path)) :
    TreeStep.FailsWith Error.OfFiles (moveAll moves) := by
  unfold moveAll
  refine .bind (.mapM fun move _ => ?_) fun contents =>
    .bind (.forIn fun move _ => ?_) fun _ => .bind (.forIn fun entry _ => ?_) fun _ => .pure _
  · exact .bind (.query fun t => t.read_failsWith _) fun _ => .pure _
  · exact .bind (.update fun t => t.delete_failsWith _) fun _ => .pure _
  · exact .bind (.update fun t => t.write_failsWith _ _) fun _ => .pure _

theorem rename_failsWith (src dst : Path) : TreeStep.FailsWith Error.OfFiles (rename src dst) := by
  unfold rename
  refine .bind .get fun t => .bind (.query fun t => t.ensureOpen_failsWith) fun _ => ?_
  split
  · exact .pure _
  dsimp only
  split
  · exact .bind (.pure _) fun moves => moveAll_failsWith moves
  split
  · have walked := TreeStep.FailsWith.bind (.query fun t => t.walkFiles_failsWith src) fun files =>
      .bind (.pure (files.map fun f => (f, dst.append ((f.stripPrefix src).getD Path.root))))
        moveAll_failsWith
    split
    · exact .bind (.throw trivial) fun _ => walked
    · exact walked
  · exact .bind (.throw trivial) fun moves => moveAll_failsWith moves

end StagedTree

end Monorepo
