import Monorepo.Proofs.Codemod.Agreement

/-!
# Edits at an address

An address is the list of child indices leading from the root of a syntax tree down to one of its
nodes. An edit made inside one node of a file changes, in the re-parsed tree, that node and the
texts of the nodes above it, and nothing else. `ReplacedAt` says so of two trees: above the
changed node every node keeps its kind and role and its other children agree, and at the address
the old and new nodes are related as the edit says. Splitting an address splits the relation
(`replacedAt_append`); off the address the trees agree (`ReplacedAt.subtreeAt_off`); and a search
among the children of a node above the change stops at the same index in both trees
(`ReplacedAt.findIdx?_eq`).
-/

namespace List

variable {α β : Type}

theorem findIdx?_congr {p : α → Bool} {q : β → Bool} :
    ∀ {l : List α} {l' : List β}, (∀ j : Nat, (l[j]?).map p = (l'[j]?).map q) →
      l.findIdx? p = l'.findIdx? q
  | [], [], _ => rfl
  | [], _ :: _, agree => by simpa using agree 0
  | _ :: _, [], agree => by simpa using agree 0
  | a :: l, b :: l', agree => by
    have head : p a = q b := by simpa using agree 0
    have tail : ∀ j : Nat, (l[j]?).map p = (l'[j]?).map q := fun j => by simpa using agree (j + 1)
    rw [findIdx?_cons, findIdx?_cons, head, findIdx?_congr tail]

theorem find?_eq_findIdx?_bind (p : α → Bool) :
    ∀ l : List α, l.find? p = (l.findIdx? p).bind (l[·]?)
  | [] => rfl
  | a :: l => by
    rw [find?_cons, findIdx?_cons]
    by_cases hit : p a = true
    · simp [hit]
    · rw [if_neg hit]
      simp only [hit, find?_eq_findIdx?_bind p l]
      cases l.findIdx? p <;> simp

end List

namespace Monorepo.Script.Node

/-- The node at an address, `none` when the address leaves the tree. -/
def subtreeAt (n : Node) : List Nat → Option Node
  | [] => some n
  | i :: rest => n.children[i]?.bind fun c => c.subtreeAt rest

@[simp] theorem subtreeAt_nil (n : Node) : n.subtreeAt [] = some n := rfl

@[simp] theorem subtreeAt_cons (n : Node) (i : Nat) (rest : List Nat) :
    n.subtreeAt (i :: rest) = n.children[i]?.bind fun c => c.subtreeAt rest := rfl

theorem subtreeAt_append (n : Node) (a b : List Nat) :
    n.subtreeAt (a ++ b) = (n.subtreeAt a).bind (·.subtreeAt b) := by
  induction a generalizing n with
  | nil => rfl
  | cons i rest ih =>
    rw [List.cons_append, subtreeAt_cons, subtreeAt_cons]
    cases n.children[i]? with
    | none => rfl
    | some c => exact ih c

theorem subtreeAt_child {n c : Node} {a : List Nat} {i : Nat} (at_ : n.subtreeAt a = some c)
    {d : Node} (child : c.children[i]? = some d) : n.subtreeAt (a ++ [i]) = some d := by
  rw [subtreeAt_append, at_]
  simp [child]

theorem Same.subtreeAt_rel {s s' : Source} {d d' : Node} (same : Node.Same s s' d d') :
    ∀ b : List Nat, Option.Rel (Node.Same s s') (d.subtreeAt b) (d'.subtreeAt b)
  | [] => .some same
  | k :: rest => by
    rw [subtreeAt_cons, subtreeAt_cons]
    exact (same.children_rel.getElem?_rel k).bind_rel fun _ _ child => child.subtreeAt_rel rest

variable {s s' : Source} {change : Node → Node → Prop}

/-- `n'` is `n` with the node at address `a` changed as `change` relates them: every node above
keeps its kind and role, and its children off the address agree. -/
def ReplacedAt (s s' : Source) (change : Node → Node → Prop) : List Nat → Node → Node → Prop
  | [], n, n' => change n n'
  | i :: a, n, n' => n.kind = n'.kind ∧ n.field = n'.field ∧
      (∀ j, j ≠ i → Option.Rel (Node.Same s s') n.children[j]? n'.children[j]?) ∧
      ∃ c c', n.children[i]? = some c ∧ n'.children[i]? = some c' ∧ ReplacedAt s s' change a c c'

/-- A change keeps the kind and the role of the node it changes. -/
def KeepsRole (change : Node → Node → Prop) : Prop :=
  ∀ n n', change n n' → n.kind = n'.kind ∧ n.field = n'.field

theorem replacedAt_append {a b : List Nat} {n n' : Node} :
    ReplacedAt s s' change (a ++ b) n n' ↔ ReplacedAt s s' (ReplacedAt s s' change b) a n n' := by
  induction a generalizing n n' with
  | nil => rfl
  | cons i rest ih =>
    simp only [List.cons_append, ReplacedAt]
    constructor
    · rintro ⟨kind, field, off, c, c', here, here', below⟩
      exact ⟨kind, field, off, c, c', here, here', ih.mp below⟩
    · rintro ⟨kind, field, off, c, c', here, here', below⟩
      exact ⟨kind, field, off, c, c', here, here', ih.mpr below⟩

namespace ReplacedAt

variable {a : List Nat} {n n' : Node}

theorem keepsRole (keep : KeepsRole change) :
    ∀ {a : List Nat}, KeepsRole (ReplacedAt s s' change a)
  | [], n, n', h => keep n n' h
  | _ :: _, _, _, h => ⟨h.1, h.2.1⟩

theorem subtreeAt_here : ∀ {a : List Nat} {n n' : Node}, ReplacedAt s s' change a n n' →
    ∃ x x', n.subtreeAt a = some x ∧ n'.subtreeAt a = some x' ∧ change x x'
  | [], _, _, h => ⟨_, _, rfl, rfl, h⟩
  | _ :: _, _, _, ⟨_, _, _, c, c', here, here', below⟩ => by
    obtain ⟨x, x', at_, at', changed⟩ := subtreeAt_here below
    exact ⟨x, x', by simp [here, at_], by simp [here', at'], changed⟩

theorem subtreeAt_prefix {b c : List Nat} (h : ReplacedAt s s' change (b ++ c) n n') :
    ∃ x x', n.subtreeAt b = some x ∧ n'.subtreeAt b = some x' ∧ ReplacedAt s s' change c x x' :=
  subtreeAt_here (replacedAt_append.mp h)

/-- Off the address of the change, the two trees agree. -/
theorem subtreeAt_off : ∀ {a b : List Nat} {n n' : Node}, ReplacedAt s s' change a n n' →
    ¬ b <+: a → ¬ a <+: b → Option.Rel (Node.Same s s') (n.subtreeAt b) (n'.subtreeAt b)
  | _, [], _, _, _, notAbove, _ => absurd (List.nil_prefix) notAbove
  | [], _ :: _, _, _, _, _, notBelow => absurd (List.nil_prefix) notBelow
  | i :: a, j :: b, n, n', ⟨_, _, off, c, c', here, here', below⟩, notAbove, notBelow => by
    rw [subtreeAt_cons, subtreeAt_cons]
    by_cases same : j = i
    · subst same
      rw [here, here', Option.bind_some, Option.bind_some]
      exact subtreeAt_off below (fun h => notAbove (List.prefix_cons_inj j |>.mpr h))
        (fun h => notBelow (List.prefix_cons_inj j |>.mpr h))
    · exact (off j same).bind_rel fun d d' sameChild => sameChild.subtreeAt_rel b

end ReplacedAt

end Monorepo.Script.Node
