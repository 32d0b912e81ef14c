import Mathlib
import Monorepo.Tree.Json
import Monorepo.Proofs.Json.Members
import Monorepo.Proofs.Outcome
import Monorepo.Proofs.Tree.View

/-!
# Objects the readers build

Both JSON readers build an object by inserting its members one after another, so every object
they give holds each key once, at every depth. `StagedTree.readJson_keysOnce` says it of every
document read from a file; the lemmas about objects in `Proofs.Json.Members` need it.
-/

namespace Monorepo.Json

/-- Every object inside a value holds each key once. -/
inductive Value.KeysOnce : Value → Prop
  | null : KeysOnce .null
  | bool (b : Bool) : KeysOnce (.bool b)
  | number (n : Number) : KeysOnce (.number n)
  | string (s : String) : KeysOnce (.string s)
  | array {xs : List Value} : (∀ x ∈ xs, KeysOnce x) → KeysOnce (.array xs)
  | object {ms : Members} : ms.keys.Nodup → (∀ m ∈ ms, KeysOnce m.2) → KeysOnce (.object ms)

namespace Read

theorem keysOnce (fuel : Nat) : ∀ {depth : Nat} {cs : List Char} {v : Value} {rest : List Char},
    (value fuel depth cs = .ok (v, rest) → v.KeysOnce) ∧
    (∀ {acc : List Value}, (∀ x ∈ acc, x.KeysOnce) → items fuel depth acc cs = .ok (v, rest) →
      v.KeysOnce) ∧
    (∀ {acc : Members}, acc.keys.Nodup → (∀ m ∈ acc, m.2.KeysOnce) →
      members fuel depth acc cs = .ok (v, rest) → v.KeysOnce) := by
  induction fuel with
  | zero => intros; refine ⟨?_, ?_, ?_⟩ <;> intros <;> simp_all [value, items, members]
  | succ fuel ih =>
    intro depth cs v rest
    refine ⟨fun read => ?_, fun {acc} each read => ?_, fun {acc} nodup each read => ?_⟩
    · unfold value at read
      simp only at read
      split at read
      · cases read
      · cases read; exact .null
      · cases read; exact .bool true
      · cases read; exact .bool false
      · obtain ⟨_, _, same⟩ := except_map_eq_ok.mp read
        cases same
        exact .string _
      · obtain ⟨_, _, same⟩ := except_map_eq_ok.mp read
        cases same
        exact .number _
      · split at read
        · cases read
        · split at read
          · cases read
            exact .array (by simp)
          · exact (ih.2.1 (by simp) read)
      · split at read
        · cases read
        · split at read
          · cases read
            exact .object (by simp [Members.keys]) (by simp)
          · exact (ih.2.2 (by simp [Members.keys]) (by simp) read)
      · split at read
        · obtain ⟨_, _, same⟩ := except_map_eq_ok.mp read
          cases same
          exact .number _
        · cases read
    · unfold items at read
      split at read
      · cases read
      rename_i item after found
      have first := ih.1 found
      split at read
      · refine ih.2.1 (fun x member => ?_) read
        rcases List.mem_cons.mp member with rfl | old
        · exact first
        · exact each x old
      · cases read
        refine .array fun x member => ?_
        rcases List.mem_cons.mp (List.mem_reverse.mp member) with rfl | old
        · exact first
        · exact each x old
      · cases read
      · cases read
    · unfold members at read
      simp only at read
      split at read
      · split at read
        · cases read
        split at read
        · split at read
          · cases read
          rename_i key _ _ _ _ _ _ item after found
          have first := ih.1 found
          have nodup' := Members.nodup_insert (k := key) (v := item) nodup
          have each' : ∀ m ∈ Members.insert acc key item, m.2.KeysOnce := fun m member => by
            rcases Members.mem_insert member with old | rfl
            · exact each m old
            · exact first
          split at read
          · exact ih.2.2 nodup' each' read
          · cases read
            exact .object nodup' each'
          · cases read
          · cases read
        · cases read
        · cases read
      · cases read
      · cases read

end Read

end Monorepo.Json

namespace Monorepo.Json

theorem parse_keysOnce {text : String} {v : Value} (read : parse text = .ok v) : v.KeysOnce := by
  unfold parse at read
  dsimp only at read
  split at read
  · cases read
  · rename_i found
    split at read
    · cases read
      exact (Read.keysOnce _).1 found
    · cases read

theorem Relaxed.numberValue_keysOnce (text : String) : (Relaxed.numberValue text).KeysOnce := by
  unfold Relaxed.numberValue
  split
  · exact parse_keysOnce ‹_›
  · exact .string text

namespace Relaxed

theorem keysOnce (t : Text) (fuel : Nat) : ∀ {c c' : Cursor},
    (∀ {v : Value}, value t c fuel = .ok (some v, c') → v.KeysOnce) ∧
    (∀ {o : Nat} {acc ms : Members}, acc.keys.Nodup → (∀ m ∈ acc, m.2.KeysOnce) →
      members t o acc c fuel = .ok (ms, c') → ms.keys.Nodup ∧ ∀ m ∈ ms, m.2.KeysOnce) ∧
    (∀ {o : Nat} {acc xs : List Value}, (∀ x ∈ acc, x.KeysOnce) →
      items t o acc c fuel = .ok (xs, c') → ∀ x ∈ xs, x.KeysOnce) := by
  induction fuel with
  | zero => intros; refine ⟨?_, ?_, ?_⟩ <;> intros <;> simp_all [value, items, members]
  | succ fuel ih =>
    intro c c'
    refine ⟨fun {v} read => ?_, fun {o acc ms} nodup each read => ?_, fun {o acc xs} each read => ?_⟩
    · unfold value at read
      split at read
      · cases read
      · obtain ⟨c₁, -, read⟩ := except_bind_eq_ok.mp read
        obtain ⟨⟨ms, c₂⟩, inner, read⟩ := except_bind_eq_ok.mp read
        cases read
        have once := ih.2.1 (by simp [Members.keys]) (by simp) inner
        exact .object once.1 once.2
      · obtain ⟨c₁, -, read⟩ := except_bind_eq_ok.mp read
        obtain ⟨⟨xs, c₂⟩, inner, read⟩ := except_bind_eq_ok.mp read
        cases read
        exact .array (ih.2.2 (by simp) inner)
      all_goals first
        | (simp only [Except.ok.injEq, Prod.mk.injEq, Option.some.injEq] at read
           obtain ⟨rfl, -⟩ := read)
        | cases read
      · exact .string _
      · exact .bool _
      · exact numberValue_keysOnce _
      · exact .null
    · unfold members at read
      split at read
      all_goals first
        | (cases read; done)
        | (cases read; exact ⟨nodup, each⟩)
        | skip
      all_goals
        obtain ⟨c₁, -, read⟩ := except_bind_eq_ok.mp read
        dsimp only at read
        split at read
        · cases read
        obtain ⟨c₂, -, read⟩ := except_bind_eq_ok.mp read
        obtain ⟨⟨item, c₃⟩, found, read⟩ := except_bind_eq_ok.mp read
        dsimp only at read
        split at read
        · rename_i item
          have first := ih.1 found
          have grown : ∀ key, (Members.insert acc key item).keys.Nodup ∧
              ∀ m ∈ Members.insert acc key item, m.2.KeysOnce := fun key =>
            ⟨Members.nodup_insert nodup, fun m member => by
              rcases Members.mem_insert member with old | rfl
              · exact each m old
              · exact first⟩
          obtain ⟨c₄, -, read⟩ := except_bind_eq_ok.mp read
          split at read
          · obtain ⟨c₅, -, read⟩ := except_bind_eq_ok.mp read
            exact ih.2.1 (grown _).1 (grown _).2 read
          · exact ih.2.1 (grown _).1 (grown _).2 read
        · cases read
    · unfold items at read
      split at read
      · cases read
        exact each
      · cases read
      obtain ⟨⟨item, c₁⟩, found, read⟩ := except_bind_eq_ok.mp read
      dsimp only at read
      split at read
      · rename_i item
        have first := ih.1 found
        have grown : ∀ x ∈ acc ++ [item], x.KeysOnce := fun x member => by
          rcases List.mem_append.mp member with old | new
          · exact each x old
          · exact (List.mem_singleton.mp new) ▸ first
        obtain ⟨c₂, -, read⟩ := except_bind_eq_ok.mp read
        split at read
        · obtain ⟨c₃, -, read⟩ := except_bind_eq_ok.mp read
          exact ih.2.2 grown read
        · exact ih.2.2 grown read
      · cases read

end Relaxed

end Monorepo.Json

namespace Monorepo.Json

theorem Relaxed.read_keysOnce {text : String} {v : Value} (read : Relaxed.read text = .ok (some v)) :
    v.KeysOnce := by
  unfold Relaxed.read at read
  obtain ⟨c, -, read⟩ := except_bind_eq_ok.mp read
  obtain ⟨⟨found, c'⟩, whole, read⟩ := except_bind_eq_ok.mp read
  dsimp only at read
  split at read
  · cases read
  · rename_i item
    obtain ⟨after, -, read⟩ := except_bind_eq_ok.mp read
    split at read
    · cases read
    · cases read
      exact (Relaxed.keysOnce _ _).1 whole

end Monorepo.Json

namespace Monorepo.StagedTree

theorem readJson_keysOnce {t : StagedTree} {p : Path} {v : Json.Value} (read : t.readJson p = .ok v) :
    v.KeysOnce := by
  unfold readJson at read
  obtain ⟨content, -, read⟩ := except_bind_eq_ok.mp read
  split at read
  · cases read
  · cases read
  · rename_i found
    cases read
    exact Json.Relaxed.read_keysOnce found

theorem isFile_of_readJson {t : StagedTree} {p : Path} {v : Json.Value}
    (read : t.readJson p = .ok v) : t.isFile p = true := by
  unfold readJson readToString at read
  obtain ⟨text, decoded, -⟩ := except_bind_eq_ok.mp read
  obtain ⟨c, found, -⟩ := except_bind_eq_ok.mp decoded
  exact isFile_of_read found

end Monorepo.StagedTree
