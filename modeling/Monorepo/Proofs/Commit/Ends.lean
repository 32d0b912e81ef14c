import Monorepo.Tree.Commit
import Monorepo.Proofs.Outcome

/-! How a step on a disk ends. `Ends x d post fails` says that running `x` on the disk `d` gives
a value and a disk that `post` accepts, or an error that `fails` accepts. With `fails` false it
says the step succeeds. The rules follow the shape of a `do` block: a bind asks of its first step
that whatever it leaves lets the rest end well, and a loop carries an invariant over the part of
its list already done. -/

namespace Monorepo.Tree.DiskStep

variable {α β γ σ : Type}

/-- Running `x` on `d` gives a value and disk that `post` accepts, or an error that `fails`
accepts. -/
def Ends (x : DiskStep α) (d : Disk) (post : α → Disk → Prop) (fails : Error → Prop) : Prop :=
  match (x.run).run d with
  | (.ok a, d') => post a d'
  | (.error e, _) => fails e

variable {d : Disk} {post : α → Disk → Prop} {fails : Error → Prop}

theorem Ends.pure {a : α} (holds : post a d) : Ends (Pure.pure a) d post fails := holds

theorem Ends.throw {e : Error} (bad : fails e) : Ends (throw e : DiskStep α) d post fails := bad

theorem Ends.get {post : Disk → Disk → Prop} (holds : post d d) :
    Ends (get : DiskStep Disk) d post fails := holds

theorem Ends.set {d' : Disk} {post : PUnit → Disk → Prop} (holds : post () d') :
    Ends (set d' : DiskStep PUnit) d post fails := holds

theorem Ends.mono {x : DiskStep α} {post' : α → Disk → Prop} {fails' : Error → Prop}
    (ends : Ends x d post fails) (posts : ∀ a d', post a d' → post' a d')
    (failures : ∀ e, fails e → fails' e) : Ends x d post' fails' := by
  unfold Ends at ends ⊢
  split at ends
  · exact posts _ _ ends
  · exact failures _ ends

theorem Ends.bind {x : DiskStep α} {f : α → DiskStep β} {post : β → Disk → Prop}
    (first : Ends x d (fun a d' => Ends (f a) d' post fails) fails) :
    Ends (x >>= f) d post fails := by
  unfold Ends at first ⊢
  simp only [ExceptT.run_bind, StateT.run_bind]
  split at first <;> rename_i run
  · simp only [run]
    exact first
  · simp only [run]
    exact first

theorem Ends.onDisk {op : Disk → Except OsError (α × Disk)}
    (answer : match op d with
      | .ok (a, d') => post a d'
      | .error e => fails (.io e)) : Ends (onDisk op) d post fails := by
  unfold Tree.onDisk
  refine Ends.bind (Ends.get ?_)
  cases found : op d with
  | ok r =>
    obtain ⟨a, d'⟩ := r
    rw [found] at answer
    exact Ends.bind (Ends.set (Ends.pure answer))
  | error e =>
    rw [found] at answer
    exact Ends.throw answer

theorem Ends.forIn {l : List γ} {init : σ} {body : γ → σ → DiskStep (ForInStep σ)}
    (inv : List γ → σ → Disk → Prop) (start : inv [] init d)
    (step : ∀ done x rest, done ++ x :: rest = l → ∀ s d, inv done s d →
      Ends (body x s) d (fun r d' => ∃ s', r = .yield s' ∧ inv (done ++ [x]) s' d') fails) :
    Ends (forIn l init body) d (fun s d' => inv l s d') fails := by
  suffices later : ∀ rest done, done ++ rest = l → ∀ s d, inv done s d →
      Ends (ForIn.forIn rest s body) d (fun s d' => inv l s d') fails from
    later l [] rfl init d start
  intro rest
  induction rest with
  | nil =>
    intro done whole s d holds
    rw [List.append_nil] at whole
    subst whole
    exact Ends.pure holds
  | cons x rest ih =>
    intro done whole s d holds
    rw [List.forIn_cons]
    refine Ends.bind ((step done x rest whole s d holds).mono (fun r d' passed => ?_)
      fun _ bad => bad)
    obtain ⟨s', rfl, holds'⟩ := passed
    exact ih (done ++ [x]) (by simp [whole]) s' d' holds'

end Monorepo.Tree.DiskStep
