import Monorepo.Proofs.Codemod.Addresses

/-!
# Where a locator's walk goes

`Lookup.unwrap` walks from an exported value through calls, wrappers, functions and variables to
an object literal. Here the same walk is taken on addresses: `defaultExportAt`, `variableAt` and
`unwrapAt` find where the lookups of the same name find their nodes, and each lookup is the node
at that address (`defaultExportValue_eq`, `variableValue_eq`, `unwrap_eq`).
-/

namespace List

variable {α β : Type}

theorem findSome?_filterMap (g : α → Option β) {γ : Type} (h : β → Option γ) :
    ∀ l : List α, (l.filterMap g).findSome? h = l.findSome? fun a => (g a).bind h
  | [] => rfl
  | a :: l => by
    rw [filterMap_cons, findSome?_cons]
    cases g a with
    | none => exact findSome?_filterMap g h l
    | some b =>
      rw [findSome?_cons, Option.bind_some]
      cases h b <;> simp [findSome?_filterMap g h l]

theorem findSome?_filter (p : α → Bool) (h : α → Option β) :
    ∀ l : List α, (l.filter p).findSome? h = l.findSome? fun a => if p a then h a else none
  | [] => rfl
  | a :: l => by
    rw [filter_cons, findSome?_cons]
    by_cases hit : p a = true
    · rw [if_pos hit, if_pos hit, findSome?_cons, findSome?_filter p h l]
    · rw [if_neg hit, if_neg hit, findSome?_filter p h l]

theorem findSome?_map_result {γ : Type} (f : α → Option β) (g : β → γ) (l : List α) :
    l.findSome? (fun a => (f a).map g) = (l.findSome? f).map g :=
  map_findSome?.symm

theorem findIdx?_spec {p : α → Bool} {l : List α} {i : Nat} (h : l.findIdx? p = some i) :
    ∃ a, l[i]? = some a ∧ p a = true := by
  have found := of_findIdx?_eq_some h
  split at found
  · next a ha => exact ⟨a, ha, found⟩
  · exact absurd found Bool.false_ne_true

theorem findSome?_eq_range (h : α → Option β) :
    ∀ l : List α, l.findSome? h = (range l.length).findSome? fun i => l[i]?.bind h
  | [] => rfl
  | a :: l => by
    rw [findSome?_cons, length_cons, range_succ_eq_map, findSome?_cons, findSome?_map,
      findSome?_eq_range h l]
    rfl

end List

namespace Monorepo.Script.Node

/-- The index of the first child in the role `f`. -/
def childIdx? (n : Node) (f : Field) : Option Nat := n.children.findIdx? (·.field == some f)

/-- The index of the first member: the first named child that is not a comment. -/
def firstMemberIdx? (n : Node) : Option Nat :=
  n.children.findIdx? fun c => c.isNamed && !c.isComment

theorem childIdx?_spec {n : Node} {f : Field} {k : Nat} (h : n.childIdx? f = some k) :
    ∃ c, n.children[k]? = some c ∧ c.field = some f := by
  obtain ⟨c, hc, role⟩ := List.findIdx?_spec h
  exact ⟨c, hc, by simpa using role⟩

theorem childIdx?_ne {n : Node} {f g : Field} (ne : f ≠ g) {k : Nat} (h : n.childIdx? g = some k) :
    n.childIdx? f ≠ some k := by
  intro h'
  obtain ⟨c, hc, role⟩ := childIdx?_spec h
  obtain ⟨c', hc', role'⟩ := childIdx?_spec h'
  rw [hc] at hc'
  cases hc'
  exact ne (Option.some.inj (role'.symm.trans role))

theorem child?_eq_childIdx? (n : Node) (f : Field) :
    n.child? f = (n.childIdx? f).bind (n.children[·]?) :=
  List.find?_eq_findIdx?_bind _ n.children

theorem firstMember?_eq_firstMemberIdx? (n : Node) :
    n.firstMember? = n.firstMemberIdx?.bind (n.children[·]?) := by
  rw [firstMember?, members, List.head?_filter]
  exact List.find?_eq_findIdx?_bind _ n.children

theorem find?_namedChildren (n : Node) (p : Node → Bool) :
    n.namedChildren.find? p =
      (n.children.findIdx? fun c => c.isNamed && p c).bind (n.children[·]?) := by
  rw [namedChildren, List.find?_filter, ← List.find?_eq_findIdx?_bind]
  simp

theorem subtreeAt_pair {root n : Node} {b : List Nat} (at_ : root.subtreeAt b = some n)
    (k j : Nat) : root.subtreeAt (b ++ [k, j]) = n.children[k]?.bind (·.children[j]?) := by
  rw [subtreeAt_append, at_, Option.bind_some, subtreeAt_cons]
  cases n.children[k]? <;> simp

end Monorepo.Script.Node

namespace Monorepo.Codemod.Lookup

open Monorepo.Script Node

/-- Where `defaultExportValue` finds the exported value. -/
def defaultExportAt (root : Node) : Option (List Nat) := do
  let i ← root.children.findIdx? fun s =>
    s.isNamed && (s.kind == .exportStatement && s.hasToken "default")
  let s ← root.children[i]?
  let v ← (s.childIdx? .value).orElse fun _ => s.childIdx? .declaration
  return [i, v]

/-- Where the statement `s`, the `i`-th child of the root, holds its declarators: itself for
`const`, `let` and `var`, its declaration for an `export`. -/
def declarationAt (i : Nat) (s : Node) : Option (List Nat) :=
  if s.kind == .lexicalDeclaration || s.kind == .variableDeclaration then some [i]
  else if s.kind == .exportStatement then (s.childIdx? .declaration).map ([i, ·])
  else none

/-- Among the children of the declaration `d` at `a`, the first declarator named `name`: `none`
when there is none, else where its initial value is, if it has one. -/
def declaredValueAt (src : Source) (name : String) (a : List Nat) (d : Node) :
    Option (Option (List Nat)) := do
  let j ← d.children.findIdx? fun v => v.isNamed &&
    (v.kind == .variableDeclarator && ((v.child? .name).map (·.text src)) == some name)
  let v ← d.children[j]?
  return (v.childIdx? .value).map fun k => a ++ [j, k]

/-- Where `variableValue` finds the initial value of `name`. -/
def variableAt (src : Source) (root : Node) (name : String) : Option (List Nat) :=
  let found := (List.range root.children.length).findSome? fun i =>
    root.children[i]?.bind fun s =>
      if s.isNamed then
        (declarationAt i s).bind fun a => (root.subtreeAt a).bind (declaredValueAt src name a)
      else none
  found.bind id

/-- Where `unwrap` ends, walking from the node at `b`. -/
def unwrapAt (src : Source) (root : Node) : Nat → List Nat → Option String → Option (List Nat)
  | 0, _, _ => none
  | fuel + 1, b, callee => (root.subtreeAt b).bind fun node =>
    match node.kind with
    | .object => some b
    | .callExpression => do
      let i ← node.childIdx? .callee
      let f ← node.children[i]?
      if let some expected := callee then
        if !calleeMatches (f.text src) expected then none
      let k ← node.childIdx? .arguments
      let args ← node.children[k]?
      let j ← args.firstMemberIdx?
      unwrapAt src root fuel (b ++ [k, j]) none
    | .parenthesizedExpression | .asExpression | .satisfiesExpression | .nonNullExpression => do
      let j ← node.firstMemberIdx?
      unwrapAt src root fuel (b ++ [j]) callee
    | .arrowFunction | .functionExpression => do
      let k ← node.childIdx? .body
      let body ← node.children[k]?
      if body.kind == .statementBlock then
        let r ← body.children.findIdx? fun c => c.isNamed && c.kind == .returnStatement
        let ret ← body.children[r]?
        let m ← ret.firstMemberIdx?
        unwrapAt src root fuel (b ++ [k, r, m]) none
      else unwrapAt src root fuel (b ++ [k]) none
    | .identifier => do
      let c ← variableAt src root (node.text src)
      unwrapAt src root fuel c callee
    | _ => none

theorem defaultExportValue_eq (root : Node) :
    defaultExportValue root = (defaultExportAt root).bind root.subtreeAt := by
  unfold defaultExportValue defaultExportAt
  rw [find?_namedChildren]
  cases hi : root.children.findIdx? _ with
  | none => rfl
  | some i =>
    cases hs : root.children[i]? with
    | none => simp [hs]
    | some s =>
      simp only [Option.bind_some, hs, child?_eq_childIdx?]
      cases hv : s.childIdx? .value with
      | some v =>
        obtain ⟨c, hc, -⟩ := childIdx?_spec hv
        simp [hs, hv, hc]
      | none => cases hd : s.childIdx? .declaration <;> simp [hs, hv, hd]

variable {src : Source} {root : Node}

theorem declarationAt_spec {i : Nat} {s : Node} (at_ : root.children[i]? = some s) :
    (if s.kind == .lexicalDeclaration || s.kind == .variableDeclaration then some s
      else if s.kind == .exportStatement then s.child? .declaration else none) =
      (declarationAt i s).bind root.subtreeAt := by
  unfold declarationAt
  split
  · simp [at_]
  · split
    · rw [child?_eq_childIdx?]
      cases s.childIdx? .declaration <;> simp [at_]
    · rfl

theorem declaredValueAt_spec {name : String} {a : List Nat} {d : Node}
    (at_ : root.subtreeAt a = some d) :
    (d.namedChildren.find? fun v => v.kind == .variableDeclarator &&
        ((v.child? .name).map (·.text src)) == some name).map (·.child? .value) =
      (declaredValueAt src name a d).map (·.bind root.subtreeAt) := by
  unfold declaredValueAt
  rw [find?_namedChildren]
  cases hj : d.children.findIdx? _ with
  | none => rfl
  | some j =>
    cases hv : d.children[j]? with
    | none => simp [hv]
    | some v =>
      simp only [Option.bind_some, hv, Option.map_some, child?_eq_childIdx?]
      cases hk : v.childIdx? .value with
      | none => simp [hv, hk]
      | some k => simp [subtreeAt_append, at_, hv, hk]

theorem variableValue_eq (name : String) :
    variableValue src root name = (variableAt src root name).bind root.subtreeAt := by
  unfold variableValue variableAt
  dsimp only
  rw [List.findSome?_filterMap, namedChildren, List.findSome?_filter,
    List.findSome?_eq_range _ root.children]
  have pointwise : ∀ i, (root.children[i]?.bind fun s => if s.isNamed then
      ((if s.kind == .lexicalDeclaration || s.kind == .variableDeclaration then some s
        else if s.kind == .exportStatement then s.child? .declaration else none).bind
        fun d => (d.namedChildren.find? fun v => v.kind == .variableDeclarator &&
          ((v.child? .name).map (·.text src)) == some name).map (·.child? .value)) else none) =
      (root.children[i]?.bind fun s => if s.isNamed then (declarationAt i s).bind fun a =>
        (root.subtreeAt a).bind (declaredValueAt src name a) else none).map
        (·.bind root.subtreeAt) := by
    intro i
    cases hs : root.children[i]? with
    | none => rfl
    | some s =>
      simp only [Option.bind_some]
      split
      · rw [declarationAt_spec hs, Option.bind_assoc, Option.map_bind]
        refine Option.bind_congr fun a _ => ?_
        simp only [Function.comp_apply]
        cases hd : root.subtreeAt a with
        | none => rfl
        | some d =>
          simp only [Option.bind_some]
          exact declaredValueAt_spec hd
      · rfl
  rw [funext pointwise, List.findSome?_map_result]
  cases (List.range root.children.length).findSome? _ <;> rfl

theorem unwrap_eq : ∀ (fuel : Nat) (b : List Nat) (callee : Option String),
    (root.subtreeAt b).bind (unwrap src root fuel · callee) =
      (unwrapAt src root fuel b callee).bind root.subtreeAt
  | 0, b, _ => by cases root.subtreeAt b <;> rfl
  | fuel + 1, b, callee => by
    rw [unwrapAt]
    cases at_ : root.subtreeAt b with
    | none => rfl
    | some n =>
      simp only [Option.bind_some]
      rw [unwrap]
      have step : ∀ (a : List Nat) (callee : Option String),
          (n.subtreeAt a).bind (unwrap src root fuel · callee) =
            (unwrapAt src root fuel (b ++ a) callee).bind root.subtreeAt := by
        intro a callee
        rw [← unwrap_eq fuel (b ++ a) callee, subtreeAt_append, at_, Option.bind_some]
      have below : ∀ (k j : Nat) (c : Node), n.children[k]? = some c →
          n.subtreeAt [k, j] = c.children[j]? := by
        intro k j c hc
        simp [hc]
      cases hk : n.kind <;> simp only [Option.bind_none]
      case object => simp [at_]
      case identifier =>
        simp only [variableValue_eq, Option.bind_eq_bind, Option.bind_assoc]
        exact Option.bind_congr fun c _ => unwrap_eq fuel c callee
      case parenthesizedExpression | asExpression | satisfiesExpression | nonNullExpression =>
        simp only [firstMember?_eq_firstMemberIdx?, Option.bind_eq_bind, Option.bind_assoc]
        exact Option.bind_congr fun j _ => by simpa using step [j] callee
      case callExpression =>
        simp only [child?_eq_childIdx?, firstMember?_eq_firstMemberIdx?, Option.bind_eq_bind,
          Option.bind_assoc]
        refine Option.bind_congr fun i _ => Option.bind_congr fun f _ => ?_
        have args : ((n.childIdx? .arguments).bind fun k => n.children[k]?.bind fun args =>
              args.firstMemberIdx?.bind fun j => args.children[j]?.bind
                (unwrap src root fuel · none)) =
            (n.childIdx? .arguments).bind fun k => n.children[k]?.bind fun args =>
              args.firstMemberIdx?.bind fun j =>
                (unwrapAt src root fuel (b ++ [k, j]) none).bind root.subtreeAt := by
          refine Option.bind_congr fun k _ => Option.bind_congr fun c hc =>
            Option.bind_congr fun j _ => ?_
          rw [← step [k, j] none, below k j c hc]
        cases callee with
        | none =>
          simp only [Option.bind_assoc]
          exact args
        | some expected =>
          by_cases fails : (!calleeMatches (f.text src) expected) = true
          · simp only [if_pos fails]
            rfl
          · simp only [if_neg fails, Option.bind_assoc]
            exact args
      case arrowFunction | functionExpression =>
        simp only [child?_eq_childIdx?, returnedExpression, find?_namedChildren,
          firstMember?_eq_firstMemberIdx?, Option.bind_eq_bind, Option.bind_assoc]
        refine Option.bind_congr fun k _ => Option.bind_congr fun body hbody => ?_
        split
        · simp only [Option.bind_assoc]
          refine Option.bind_congr fun r _ => Option.bind_congr fun ret hret =>
            Option.bind_congr fun m _ => ?_
          rw [← step [k, r, m] none]
          simp [hbody, hret]
        · rw [← step [k] none]
          simp [hbody]

/-- The kinds `unwrap` looks through to their first member. -/
def wrapperKinds : List Kind :=
  [.parenthesizedExpression, .asExpression, .satisfiesExpression, .nonNullExpression]

/-- One step of the walk: from the node at `b`, expecting the callee `callee`, to the node at
`next`, expecting `callee'`; each constructor records what the step reads on the way. -/
inductive WalkStep (src : Source) (root : Node) :
    List Nat → Option String → List Nat → Option String → Prop
  /-- Into the first argument of a call whose callee is the expected one. -/
  | call {b callee x i f k args j} : root.subtreeAt b = some x → x.kind = .callExpression →
      x.childIdx? .callee = some i → x.children[i]? = some f →
      (∀ expected, callee = some expected → calleeMatches (f.text src) expected = true) →
      x.childIdx? .arguments = some k → x.children[k]? = some args →
      args.firstMemberIdx? = some j → WalkStep src root b callee (b ++ [k, j]) none
  /-- Through parentheses, `as`, `satisfies` or `!`. -/
  | wrapper {b callee x j} : root.subtreeAt b = some x → x.kind ∈ wrapperKinds →
      x.firstMemberIdx? = some j → WalkStep src root b callee (b ++ [j]) callee
  /-- Into the expression body of a function. -/
  | body {b callee x k body} : root.subtreeAt b = some x →
      (x.kind = .arrowFunction ∨ x.kind = .functionExpression) → x.childIdx? .body = some k →
      x.children[k]? = some body → body.kind ≠ .statementBlock →
      WalkStep src root b callee (b ++ [k]) none
  /-- Into what the first `return` of a function's block returns. -/
  | returned {b callee x k body r ret m} : root.subtreeAt b = some x →
      (x.kind = .arrowFunction ∨ x.kind = .functionExpression) → x.childIdx? .body = some k →
      x.children[k]? = some body → body.kind = .statementBlock →
      body.children.findIdx? (fun c => c.isNamed && c.kind == .returnStatement) = some r →
      body.children[r]? = some ret → ret.firstMemberIdx? = some m →
      WalkStep src root b callee (b ++ [k, r, m]) none
  /-- From a name to the initial value of the variable. -/
  | jump {b callee x c} : root.subtreeAt b = some x → x.kind = .identifier →
      variableAt src root (x.text src) = some c → WalkStep src root b callee c callee

theorem unwrapAt_succ_cases {fuel : Nat} {b o : List Nat} {callee : Option String}
    (h : unwrapAt src root (fuel + 1) b callee = some o) :
    (∃ x, root.subtreeAt b = some x ∧ x.kind = .object ∧ o = b) ∨
      ∃ next callee', WalkStep src root b callee next callee' ∧
        unwrapAt src root fuel next callee' = some o := by
  rw [unwrapAt] at h
  obtain ⟨x, at_, h⟩ := Option.bind_eq_some_iff.mp h
  cases hk : x.kind <;> simp only [hk, reduceCtorEq] at h
  case object => exact .inl ⟨x, at_, hk, (Option.some.inj h).symm⟩
  case identifier =>
    obtain ⟨c, hc, h⟩ := Option.bind_eq_some_iff.mp h
    exact .inr ⟨c, callee, .jump at_ hk hc, h⟩
  case parenthesizedExpression | asExpression | satisfiesExpression | nonNullExpression =>
    obtain ⟨j, hj, h⟩ := Option.bind_eq_some_iff.mp h
    exact .inr ⟨b ++ [j], callee, .wrapper at_ (by simp [hk, wrapperKinds]) hj, h⟩
  case arrowFunction | functionExpression =>
    obtain ⟨k, hk', h⟩ := Option.bind_eq_some_iff.mp h
    obtain ⟨body, hbody, h⟩ := Option.bind_eq_some_iff.mp h
    by_cases block : body.kind = .statementBlock
    · simp only [block, BEq.rfl, if_true, Option.bind_eq_bind, Option.bind_eq_some_iff] at h
      obtain ⟨r, hr, ret, hret, m, hm, h⟩ := h
      exact .inr ⟨_, none, .returned at_ (by simp [hk]) hk' hbody block hr hret hm, h⟩
    · simp only [block, beq_iff_eq, if_false] at h
      exact .inr ⟨_, none, .body at_ (by simp [hk]) hk' hbody block, h⟩
  case callExpression =>
    simp only [Option.bind_eq_bind, Option.bind_eq_some_iff] at h
    obtain ⟨i, hi, f, hf, h⟩ := h
    have passed : (∀ expected, callee = some expected → calleeMatches (f.text src) expected = true) ∧
        ((x.childIdx? .arguments).bind fun k => x.children[k]?.bind fun args =>
          args.firstMemberIdx?.bind fun j => unwrapAt src root fuel (b ++ [k, j]) none) = some o := by
      cases callee with
      | none => exact ⟨fun _ unexpected => absurd unexpected (by simp), h⟩
      | some expected =>
        by_cases fails : (!calleeMatches (f.text src) expected) = true
        · simp only [fails, if_true, Option.bind_none, reduceCtorEq] at h
        · simp only [fails, Bool.false_eq_true, if_false] at h
          refine ⟨fun e same => ?_, h⟩
          cases same
          simpa using fails
    obtain ⟨check, h⟩ := passed
    simp only [Option.bind_eq_some_iff] at h
    obtain ⟨k, hk', args, hargs, j, hj, h⟩ := h
    exact .inr ⟨_, none, .call at_ hk hi hf check hk' hargs hj, h⟩

theorem WalkStep.unwrapAt_succ {b next : List Nat} {callee callee' : Option String}
    (step : WalkStep src root b callee next callee') (fuel : Nat) :
    unwrapAt src root (fuel + 1) b callee = unwrapAt src root fuel next callee' := by
  cases step with
  | call at_ kind hi hf check hk hargs hj =>
    simp only [unwrapAt, at_, Option.bind_some, kind, hi, hf, hk, hargs, hj, Option.bind_eq_bind]
    cases callee with
    | none => simp
    | some expected => simp [check expected rfl]
  | wrapper at_ kind hj =>
    simp only [wrapperKinds, List.mem_cons, List.not_mem_nil, or_false] at kind
    rcases kind with kind | kind | kind | kind <;> simp [unwrapAt, at_, kind, hj]
  | body at_ kind hk hbody block =>
    rcases kind with kind | kind <;> simp [unwrapAt, at_, kind, hk, hbody, block]
  | returned at_ kind hk hbody block hr hret hm =>
    rcases kind with kind | kind <;> simp [unwrapAt, at_, kind, hk, hbody, block, hr, hret, hm]
  | jump at_ kind hc =>
    simp [unwrapAt, at_, kind, hc]

theorem declarationAt_cases {i : Nat} {s : Node} {a : List Nat} (h : declarationAt i s = some a) :
    a = [i] ∧ (s.kind = .lexicalDeclaration ∨ s.kind = .variableDeclaration) ∨
      ∃ d, a = [i, d] ∧ s.kind = .exportStatement ∧ s.childIdx? .declaration = some d := by
  unfold declarationAt at h
  split at h
  · next kind =>
    refine .inl ⟨(Option.some.inj h).symm, ?_⟩
    simpa using kind
  · split at h
    · next kind =>
      obtain ⟨d, hd, rfl⟩ := Option.map_eq_some_iff.mp h
      exact .inr ⟨d, rfl, by simpa using kind, hd⟩
    · exact absurd h (by simp)

theorem variableAt_spec {name : String} {c : List Nat} (found : variableAt src root name = some c) :
    ∃ i s a j x v, root.children[i]? = some s ∧ declarationAt i s = some a ∧
      root.subtreeAt (a ++ [j]) = some x ∧ x.kind = .variableDeclarator ∧
      x.childIdx? .value = some v ∧ c = a ++ [j, v] := by
  unfold variableAt at found
  obtain ⟨r, hr, hc⟩ := Option.bind_eq_some_iff.mp found
  obtain ⟨i, -, hi⟩ := List.exists_of_findSome?_eq_some hr
  obtain ⟨s, hs, hi⟩ := Option.bind_eq_some_iff.mp hi
  split at hi
  · obtain ⟨a, ha, hi⟩ := Option.bind_eq_some_iff.mp hi
    obtain ⟨d, hd, hi⟩ := Option.bind_eq_some_iff.mp hi
    unfold declaredValueAt at hi
    obtain ⟨j, hj, hi⟩ := Option.bind_eq_some_iff.mp hi
    obtain ⟨x, hx, hi⟩ := Option.bind_eq_some_iff.mp hi
    obtain ⟨x', hx', named⟩ := List.findIdx?_spec hj
    rw [hx] at hx'
    cases hx'
    have kind : x.kind = .variableDeclarator := by simp at named; exact named.2.1
    simp only [Option.pure_def, Option.some.injEq] at hi
    subst hi
    obtain ⟨v, hv, rfl⟩ := Option.map_eq_some_iff.mp hc
    exact ⟨i, s, a, j, x, v, hs, ha, subtreeAt_child hd hx, kind, hv, rfl⟩
  · exact absurd hi (by simp)

theorem unwrapAt_object : ∀ {fuel : Nat} {b o : List Nat} {callee : Option String},
    unwrapAt src root fuel b callee = some o → ∃ O, root.subtreeAt o = some O ∧ O.kind = .object
  | 0, _, _, _, h => absurd h (by simp [unwrapAt])
  | _ + 1, _, _, _, h => by
    rcases unwrapAt_succ_cases h with ⟨x, at_, kind, rfl⟩ | ⟨_, _, _, rest⟩
    · exact ⟨x, at_, kind⟩
    · exact unwrapAt_object rest

theorem WalkStep.two_le_length {b next : List Nat} {callee callee' : Option String}
    (step : WalkStep src root b callee next callee') (long : 2 ≤ b.length) :
    2 ≤ next.length := by
  cases step with
  | jump _ _ hc =>
    obtain ⟨_, _, a, j, _, v, -, -, -, -, -, rfl⟩ := variableAt_spec hc
    simp
  | _ => simp only [List.length_append, List.length_cons, List.length_nil]; omega

theorem unwrapAt_two_le_length : ∀ {fuel : Nat} {b o : List Nat} {callee : Option String},
    unwrapAt src root fuel b callee = some o → 2 ≤ b.length → 2 ≤ o.length
  | 0, _, _, _, h, _ => absurd h (by simp [unwrapAt])
  | _ + 1, _, _, _, h, long => by
    rcases unwrapAt_succ_cases h with ⟨_, _, _, rfl⟩ | ⟨_, _, step, rest⟩
    · exact long
    · exact unwrapAt_two_le_length rest (step.two_le_length long)

/-- Shape facts of the grammar that the locator relies on, at every node of a tree. -/
structure WellShaped (root : Node) : Prop where
  /-- Identifiers are tokens: they have no children. -/
  identifier_leaf : ∀ (a : List Nat) (x : Node), root.subtreeAt a = some x →
    x.kind = .identifier → x.children = []
  /-- Declarators stand in `const`, `let` and `var` declarations only. -/
  declarator_parent : ∀ (a : List Nat) (x : Node) (j : Nat) (c : Node),
    root.subtreeAt a = some x → x.children[j]? = some c →
    c.kind = .variableDeclarator → x.kind = .lexicalDeclaration ∨ x.kind = .variableDeclaration
  /-- The arguments of a call are an argument list or a template string. -/
  arguments_kind : ∀ (a : List Nat) (x : Node) (k : Nat) (c : Node),
    root.subtreeAt a = some x → x.kind = .callExpression →
    x.childIdx? .arguments = some k → x.children[k]? = some c →
    c.kind = .arguments ∨ c.kind = .templateString
  /-- A pair of an object literal has a value. -/
  pair_value : ∀ (a : List Nat) (x : Node), root.subtreeAt a = some x → x.kind = .pair →
    (x.child? .value).isSome = true

/-- Going down from the node at `a` to its child `k` is not entering a call through its callee
nor a declarator through its name. -/
def SafeAt (root : Node) (a : List Nat) (k : Nat) : Prop :=
  ∀ x, root.subtreeAt a = some x →
    (x.kind = .callExpression → x.childIdx? .callee ≠ some k) ∧
    (x.kind = .variableDeclarator → x.childIdx? .name ≠ some k)

/-- Every step down on the way to `o` from below `b`, the root apart, is safe. -/
def SafeFrom (root : Node) (b o : List Nat) : Prop :=
  ∀ a k rest, o = a ++ k :: rest → b <+: a → a ≠ [] → SafeAt root a k

theorem safeAt_of_kind {a : List Nat} {x : Node} (at_ : root.subtreeAt a = some x)
    (call : x.kind ≠ .callExpression) (declarator : x.kind ≠ .variableDeclarator) (k : Nat) :
    SafeAt root a k := by
  intro x' at'
  rw [at_] at at'
  cases at'
  exact ⟨fun h => absurd h call, fun h => absurd h declarator⟩

theorem SafeFrom.refl (o : List Nat) : SafeFrom root o o := by
  intro a k rest split above _
  have longer := above.length_le
  rw [split, List.length_append, List.length_cons] at longer
  omega

theorem SafeFrom.up {b o : List Nat} {k : Nat} (safe : SafeFrom root (b ++ [k]) o)
    (below : b ++ [k] <+: o) (here : b ≠ [] → SafeAt root b k) : SafeFrom root b o := by
  obtain ⟨rest, rfl⟩ := below
  intro a k' rest' split' above nonempty
  obtain ⟨c, rfl⟩ := above
  cases c with
  | nil =>
    rw [List.append_nil] at split'
    simp only [List.append_assoc, List.cons_append, List.nil_append, List.append_cancel_left_eq,
      List.cons.injEq] at split'
    rw [← split'.1]
    simpa using here (by simpa using nonempty)
  | cons k'' c =>
    have : k'' = k := by
      simp only [List.append_assoc, List.cons_append, List.nil_append,
        List.append_cancel_left_eq, List.cons.injEq] at split'
      exact split'.1.symm
    subst this
    exact safe _ k' rest' split' ⟨c, by simp⟩ nonempty

theorem safeAt_declaration (shaped : WellShaped root) {a : List Nat} {j : Nat} {x : Node}
    (at_ : root.subtreeAt (a ++ [j]) = some x) (kind : x.kind = .variableDeclarator) (k : Nat) :
    SafeAt root a k := by
  intro d hd
  have child : d.children[j]? = some x := by
    rw [subtreeAt_append, hd, Option.bind_some, subtreeAt_cons] at at_
    cases h : d.children[j]? with
    | none => simp [h] at at_
    | some c => simp [h] at at_; rw [at_]
  rcases shaped.declarator_parent a d j x hd child kind with lexical | var <;>
    exact ⟨fun h => by simp_all, fun h => by simp_all⟩

theorem wrapperKinds_ne {k : Kind} (h : k ∈ wrapperKinds) :
    k ≠ .callExpression ∧ k ≠ .variableDeclarator ∧ k ≠ .object ∧ k ≠ .identifier := by
  simp only [wrapperKinds, List.mem_cons, List.not_mem_nil, or_false] at h
  rcases h with rfl | rfl | rfl | rfl <;> simp

theorem WalkStep.safeFrom (shaped : WellShaped root) {b next o : List Nat}
    {callee callee' : Option String} (step : WalkStep src root b callee next callee')
    (below : next <+: o) (safe : SafeFrom root next o) :
    (b <+: o ∧ SafeFrom root b o) ∨ SafeFrom root [] o := by
  obtain ⟨t, rfl⟩ := below
  cases step with
  | @call x i f k args j at_ kind _ _ _ hk hargs _ =>
    have argsKind := shaped.arguments_kind b x k args at_ kind hk hargs
    have fromArgs : SafeFrom root (b ++ [k]) (b ++ [k, j] ++ t) :=
      SafeFrom.up (by simpa using safe) (by simp) fun _ =>
        safeAt_of_kind (subtreeAt_child at_ hargs) (by rcases argsKind with h | h <;> simp [h])
          (by rcases argsKind with h | h <;> simp [h]) j
    refine .inl ⟨⟨[k, j] ++ t, by simp⟩, fromArgs.up (by simp) fun _ => ?_⟩
    intro x' at'
    rw [at_] at at'
    cases at'
    exact ⟨fun _ => childIdx?_ne (by decide) hk, fun h => by simp [kind] at h⟩
  | @wrapper x j at_ kind _ =>
    obtain ⟨call, declarator, -⟩ := wrapperKinds_ne kind
    exact .inl ⟨⟨[j] ++ t, by simp⟩, safe.up (by simp) fun _ => safeAt_of_kind at_ call declarator _⟩
  | @body x k body at_ kind _ _ _ =>
    refine .inl ⟨⟨[k] ++ t, by simp⟩, safe.up (by simp) fun _ => safeAt_of_kind at_ ?_ ?_ _⟩ <;>
      rcases kind with h | h <;> simp [h]
  | @returned x k body r ret m at_ kind _ hbody block hr hret _ =>
    obtain ⟨ret', hret', isReturn⟩ := List.findIdx?_spec hr
    rw [hret] at hret'
    cases hret'
    have retKind : ret.kind = .returnStatement := by
      simp only [Bool.and_eq_true, beq_iff_eq] at isReturn
      exact isReturn.2
    have bodyAt := subtreeAt_child at_ hbody
    have fromRet : SafeFrom root (b ++ [k, r]) (b ++ [k, r, m] ++ t) :=
      SafeFrom.up (b := b ++ [k, r]) (by simpa using safe) (by simp) fun _ =>
        safeAt_of_kind (by simpa using subtreeAt_child bodyAt hret) (by simp [retKind])
          (by simp [retKind]) m
    have fromBody : SafeFrom root (b ++ [k]) (b ++ [k, r, m] ++ t) :=
      SafeFrom.up (by simpa using fromRet) (by simp) fun _ =>
        safeAt_of_kind bodyAt (by simp [block]) (by simp [block]) r
    refine .inl ⟨⟨[k, r, m] ++ t, by simp⟩, fromBody.up (by simp) fun _ => ?_⟩
    exact safeAt_of_kind at_ (by rcases kind with h | h <;> simp [h])
      (by rcases kind with h | h <;> simp [h]) k
  | jump at_ kind hc =>
    obtain ⟨i, s, a, j, x, v, hs, ha, hx, declarator, hv, rfl⟩ := variableAt_spec hc
    have fromDeclarator : SafeFrom root (a ++ [j]) (a ++ [j, v] ++ t) := by
      refine SafeFrom.up (by simpa using safe) (by simp) fun _ => ?_
      intro x' at'
      rw [hx] at at'
      cases at'
      exact ⟨fun h => by simp [declarator] at h, fun _ => childIdx?_ne (by decide) hv⟩
    have fromDeclaration : SafeFrom root a (a ++ [j, v] ++ t) :=
      fromDeclarator.up (by simp) fun _ => safeAt_declaration shaped hx declarator j
    refine .inr ?_
    rcases declarationAt_cases ha with ⟨rfl, -⟩ | ⟨d, rfl, export_, -⟩
    · exact fromDeclaration.up (b := []) (by simp) fun nonempty => absurd rfl nonempty
    · have fromStatement : SafeFrom root [i] ([i, d] ++ [j, v] ++ t) :=
        fromDeclaration.up (b := [i]) (by simp) fun _ =>
          safeAt_of_kind (x := s) (by simp [hs]) (by simp [export_]) (by simp [export_]) d
      exact fromStatement.up (b := []) (by simp) fun nonempty => absurd rfl nonempty

theorem unwrapAt_safeFrom (shaped : WellShaped root) : ∀ {fuel : Nat} {b o : List Nat}
    {callee : Option String}, unwrapAt src root fuel b callee = some o →
    (b <+: o ∧ SafeFrom root b o) ∨ SafeFrom root [] o
  | 0, _, _, _, h => absurd h (by simp [unwrapAt])
  | _ + 1, _, _, _, h => by
    rcases unwrapAt_succ_cases h with ⟨_, _, _, rfl⟩ | ⟨_, _, step, rest⟩
    · exact .inl ⟨List.prefix_refl _, SafeFrom.refl _⟩
    · rcases unwrapAt_safeFrom shaped rest with ⟨below, safe⟩ | safe
      · exact step.safeFrom shaped below safe
      · exact .inr safe

end Monorepo.Codemod.Lookup
