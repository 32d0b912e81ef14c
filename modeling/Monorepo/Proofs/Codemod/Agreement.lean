import Mathlib.Data.List.Forall2
import Monorepo.Codemod.AnyParser

/-!
# Trees that agree

Two syntax trees, each over its own source, agree when they have the same kinds, roles and texts
all the way down; the second may sit at other offsets of another text. Everything the patcher
reads of a tree reads the same of agreeing trees: literal data, property keys, the property a key
names, whether a value already holds, the names an import binds, and the object a locator finds
(`unwrap_same`). An edit leaves most of a tree agreeing with the tree before it, and these
lemmas are how one edit is kept from disturbing what another entry already settled.
-/

namespace List.Forall₂

variable {α β : Type} {R : α → β → Prop} {l : List α} {l' : List β}

theorem find?_rel {p : α → Bool} {q : β → Bool} (agree : ∀ a b, R a b → p a = q b)
    (h : Forall₂ R l l') : Option.Rel R (l.find? p) (l'.find? q) := by
  induction h with
  | nil => exact .none
  | @cons a b as bs head _ ih =>
    rw [List.find?_cons, List.find?_cons, agree a b head]
    split
    · exact .some head
    · exact ih

theorem any_eq {p : α → Bool} {q : β → Bool} (agree : ∀ a b, R a b → p a = q b)
    (h : Forall₂ R l l') : l.any p = l'.any q := by
  induction h with
  | nil => rfl
  | @cons a b as bs head _ ih => rw [List.any_cons, List.any_cons, agree a b head, ih]

theorem head?_rel (h : Forall₂ R l l') : Option.Rel R l.head? l'.head? := by
  cases h with
  | nil => exact .none
  | cons head _ => exact .some head

theorem getLast?_rel (h : Forall₂ R l l') : Option.Rel R l.getLast? l'.getLast? := by
  rw [List.getLast?_eq_head?_reverse, List.getLast?_eq_head?_reverse]
  exact head?_rel (List.rel_reverse h)

theorem getElem?_rel (h : Forall₂ R l l') (j : Nat) : Option.Rel R l[j]? l'[j]? := by
  induction h generalizing j with
  | nil => exact .none
  | cons head _ ih =>
    cases j with
    | zero => exact .some head
    | succ j => exact ih j

theorem findSome?_rel {γ δ : Type} {P : γ → δ → Prop} {f : α → Option γ} {g : β → Option δ}
    (agree : ∀ a b, R a b → Option.Rel P (f a) (g b)) (h : Forall₂ R l l') :
    Option.Rel P (l.findSome? f) (l'.findSome? g) := by
  induction h with
  | nil => exact .none
  | @cons a b as bs head _ ih =>
    rw [List.findSome?_cons, List.findSome?_cons]
    match f a, g b, agree a b head with
    | _, _, .none => exact ih
    | _, _, .some found => exact .some found

end List.Forall₂

namespace Option.Rel

variable {α β γ δ : Type} {R : α → β → Prop} {o : Option α} {o' : Option β}

theorem bind_rel {P : γ → δ → Prop} {f : α → Option γ} {g : β → Option δ}
    (agree : ∀ a b, R a b → Option.Rel P (f a) (g b)) (h : Option.Rel R o o') :
    Option.Rel P (o.bind f) (o'.bind g) := by
  cases h with
  | none => exact .none
  | some related => exact agree _ _ related

theorem bind_eq {f : α → Option γ} {g : β → Option γ} (agree : ∀ a b, R a b → f a = g b)
    (h : Option.Rel R o o') : o.bind f = o'.bind g := by
  cases h with
  | none => rfl
  | some related => exact agree _ _ related

theorem map_eq {f : α → γ} {g : β → γ} (agree : ∀ a b, R a b → f a = g b)
    (h : Option.Rel R o o') : o.map f = o'.map g := by
  cases h with
  | none => rfl
  | some related => simp only [Option.map_some, agree _ _ related]

theorem map_rel {P : γ → δ → Prop} {f : α → γ} {g : β → δ} (agree : ∀ a b, R a b → P (f a) (g b))
    (h : Option.Rel R o o') : Option.Rel P (o.map f) (o'.map g) := by
  cases h with
  | none => exact .none
  | some related => exact .some (agree _ _ related)

theorem orElse_rel {a : Option α} {a' : Option β} (h : Option.Rel R o o')
    (next : Option.Rel R a a') : Option.Rel R (o.orElse fun _ => a) (o'.orElse fun _ => a') := by
  cases h with
  | none => exact next
  | some related => exact .some related

theorem isSome_eq (h : Option.Rel R o o') : o.isSome = o'.isSome := by
  cases h <;> rfl

end Option.Rel

namespace Monorepo.Script

/-- `n` over `s` and `n'` over `s'` have the same kinds, roles and texts throughout. -/
inductive Node.Same (s s' : Source) : Node → Node → Prop
  | intro {n n' : Node} (kind : n.kind = n'.kind) (field : n.field = n'.field)
      (text : n.text s = n'.text s')
      (children : List.Forall₂ (Node.Same s s') n.children n'.children) : Node.Same s s' n n'

namespace Node.Same

variable {s s' : Source} {n n' : Node}

theorem kind_eq (h : Node.Same s s' n n') : n.kind = n'.kind := by cases h; assumption

theorem field_eq (h : Node.Same s s' n n') : n.field = n'.field := by cases h; assumption

theorem text_eq (h : Node.Same s s' n n') : n.text s = n'.text s' := by cases h; assumption

theorem children_rel (h : Node.Same s s' n n') :
    List.Forall₂ (Node.Same s s') n.children n'.children := by
  cases h; assumption

theorem isNamed_eq (h : Node.Same s s' n n') : n.isNamed = n'.isNamed := by
  simp only [Node.isNamed, h.kind_eq]

theorem isComment_eq (h : Node.Same s s' n n') : n.isComment = n'.isComment := by
  simp only [Node.isComment, h.kind_eq]

theorem members_rel (h : Node.Same s s' n n') :
    List.Forall₂ (Node.Same s s') n.members n'.members :=
  List.rel_filter (fun a b related => by simp only [related.isNamed_eq, related.isComment_eq])
    h.children_rel

theorem namedChildren_rel (h : Node.Same s s' n n') :
    List.Forall₂ (Node.Same s s') n.namedChildren n'.namedChildren :=
  List.rel_filter (fun a b related => by simp only [related.isNamed_eq]) h.children_rel

theorem child?_rel (h : Node.Same s s' n n') (f : Field) :
    Option.Rel (Node.Same s s') (n.child? f) (n'.child? f) :=
  h.children_rel.find?_rel fun a b related => by rw [related.field_eq]

theorem firstMember?_rel (h : Node.Same s s' n n') :
    Option.Rel (Node.Same s s') n.firstMember? n'.firstMember? :=
  h.members_rel.head?_rel

theorem hasToken_eq (h : Node.Same s s' n n') (t : String) : n.hasToken t = n'.hasToken t :=
  h.children_rel.any_eq fun a b related => by rw [related.kind_eq]

end Node.Same

/-- The statements of a file other than its imports. -/
def Node.statements (root : Node) : List Node :=
  root.namedChildren.filter (·.kind != .importStatement)

end Monorepo.Script

namespace Monorepo.Codemod

open Monorepo.Script Monorepo.Json

variable {s s' : Source}

theorem propertyKey_same {k k' : Node} (same : Node.Same s s' k k') :
    propertyKey s k = propertyKey s' k' := by
  unfold propertyKey
  rw [same.kind_eq, same.text_eq]

mutual

theorem literalValue_same : ∀ {n n' : Node}, Node.Same s s' n n' →
    literalValue s n = literalValue s' n'
  | ⟨k, f, a, b, cs⟩, ⟨k', f', a', b', cs'⟩, .intro kind field text children => by
    simp only at kind children
    subst kind
    have same : Node.Same s s' ⟨k, f, a, b, cs⟩ ⟨k, f', a', b', cs'⟩ :=
      .intro rfl field text children
    unfold literalValue
    dsimp only
    split
    next => rw [same.text_eq]
    next =>
      rw [same.namedChildren_rel.any_eq fun _ _ r => by rw [r.kind_eq], same.text_eq]
    next => rw [same.text_eq]
    next => rfl
    next => rfl
    next => rfl
    next =>
      match Node.child? _ .operator, Node.child? _ .operator, same.child?_rel .operator,
        Node.child? _ .argument, Node.child? _ .argument, same.child?_rel .argument with
      | _, _, .some op, _, _, .some arg =>
        dsimp only
        rw [op.text_eq, arg.kind_eq, arg.text_eq]
      | _, _, .some _, _, _, .none => rfl
      | _, _, .none, _, _, _ => rfl
    next => exact firstNamedLiteral_same children
    next => rw [literalItems_same children]
    next => rw [literalMembers_same children]
    next => rfl

theorem firstNamedLiteral_same : ∀ {cs cs' : List Node}, List.Forall₂ (Node.Same s s') cs cs' →
    firstNamedLiteral s cs = firstNamedLiteral s' cs'
  | [], [], .nil => rfl
  | _ :: _, _ :: _, .cons head tail => by
    rw [firstNamedLiteral, firstNamedLiteral, head.isNamed_eq, literalValue_same head,
      firstNamedLiteral_same tail]

theorem literalItems_same : ∀ {cs cs' : List Node}, List.Forall₂ (Node.Same s s') cs cs' →
    literalItems s cs = literalItems s' cs'
  | [], [], .nil => rfl
  | _ :: _, _ :: _, .cons head tail => by
    rw [literalItems, literalItems, head.isNamed_eq, head.isComment_eq, literalValue_same head,
      literalItems_same tail]

theorem literalMembers_same : ∀ {cs cs' : List Node}, List.Forall₂ (Node.Same s s') cs cs' →
    ∀ acc, literalMembers s cs acc = literalMembers s' cs' acc
  | [], [], .nil, _ => rfl
  | _ :: _, _ :: _, .cons head tail, acc => by
    rw [literalMembers, literalMembers, head.isNamed_eq, head.isComment_eq, head.kind_eq,
      pairKey_same head, pairValue_same head]
    simp only [literalMembers_same tail]

theorem pairKey_same : ∀ {n n' : Node}, Node.Same s s' n n' → pairKey s n = pairKey s' n'
  | _, _, same => by
    rw [pairKey, pairKey]
    exact (same.child?_rel .key).bind_eq fun _ _ r => propertyKey_same r

theorem pairValue_same : ∀ {n n' : Node}, Node.Same s s' n n' → pairValue s n = pairValue s' n'
  | ⟨_, _, _, _, _⟩, ⟨_, _, _, _, _⟩, .intro _ _ _ children => by
    rw [pairValue, pairValue]
    exact pairValueAmong_same children

theorem pairValueAmong_same : ∀ {cs cs' : List Node}, List.Forall₂ (Node.Same s s') cs cs' →
    pairValueAmong s cs = pairValueAmong s' cs'
  | [], [], .nil => rfl
  | _ :: _, _ :: _, .cons head tail => by
    rw [pairValueAmong, pairValueAmong, head.field_eq, literalValue_same head,
      pairValueAmong_same tail]

end

theorem mapM_literalValue_same {cs cs' : List Node} (h : List.Forall₂ (Node.Same s s') cs cs') :
    cs.mapM (literalValue s) = cs'.mapM (literalValue s') := by
  induction h with
  | nil => rfl
  | cons head _ ih => rw [List.mapM_cons, List.mapM_cons, literalValue_same head, ih]

/-- Two properties agree: their members agree, and so do their values. -/
def Property.Same (s s' : Source) (p p' : Property) : Prop :=
  Node.Same s s' p.node p'.node ∧ Option.Rel (Node.Same s s') p.value p'.value

theorem findProperty_same {o o' : Node} (members : List.Forall₂ (Node.Same s s') o.members o'.members)
    (key : String) : Option.Rel (Property.Same s s') (findProperty s o key) (findProperty s' o' key) := by
  unfold findProperty
  refine (List.rel_filterMap (fun m m' same => ?_) members).getLast?_rel
  have keyed : (m.child? .key).bind (propertyKey s) = (m'.child? .key).bind (propertyKey s') :=
    pairKey_same same
  rw [same.kind_eq, keyed, same.text_eq]
  split
  · split
    · split
      · exact .some ⟨same, same.child?_rel .value⟩
      · exact .none
    · exact .none
  · split
    · split
      · exact .some ⟨same, .none⟩
      · exact .none
    · exact .none

theorem isCallTo_same {n n' : Node} (same : Node.Same s s' n n') (callee : String) :
    PatchValue.isCallTo s n callee = PatchValue.isCallTo s' n' callee := by
  unfold PatchValue.isCallTo
  rw [same.kind_eq, (same.child?_rel .callee).map_eq fun _ _ r => r.text_eq]

theorem holdsAt_same {n n' : Node} (same : Node.Same s s' n n') (v : PatchValue) :
    v.holdsAt s n = v.holdsAt s' n' := by
  cases v with
  | literal expected => simp only [PatchValue.holdsAt, literalValue_same same]
  | raw code => simp only [PatchValue.holdsAt, same.text_eq]
  | call callee arguments =>
    simp only [PatchValue.holdsAt]
    rw [isCallTo_same same]
    match n.child? .arguments, n'.child? .arguments, same.child?_rel .arguments with
    | _, _, .none => rfl
    | _, _, .some args => dsimp only; rw [mapM_literalValue_same args.members_rel]

theorem sameEntry_same {n n' : Node} (same : Node.Same s s' n n') (v : PatchValue) :
    v.sameEntry s n = v.sameEntry s' n' := by
  unfold PatchValue.sameEntry
  cases v with
  | call callee arguments => exact isCallTo_same same callee
  | literal | raw => exact holdsAt_same same _

variable {p p' : Parsed} {value : PatchValue} {mode : PatchMode} {out : PatchOutcome}

theorem appendStep_done_same {array array' : Node} {quote quote' : Char}
    (same : Node.Same p.src p'.src array array')
    (done : appendStep p array quote value = .done out) :
    appendStep p' array' quote' value = .done out := by
  have present : array.members.any (value.sameEntry p.src) =
      array'.members.any (value.sameEntry p'.src) :=
    same.members_rel.any_eq fun _ _ r => sameEntry_same r value
  unfold appendStep at done ⊢
  dsimp only at done ⊢
  rw [← same.kind_eq, ← present]
  split
  · rw [if_pos ‹_›] at done
    exact done
  · rw [if_neg ‹_›] at done
    split
    · rw [if_pos ‹_›] at done
      exact done
    · rw [if_neg ‹_›] at done
      split at done <;> cases done

theorem leafStep_done_same {property property' : Property} {style style' : ObjectStyle}
    {key : String} (same : Property.Same p.src p'.src property property')
    (done : leafStep p property style key value mode = .done out) :
    leafStep p' property' style' key value mode = .done out := by
  unfold leafStep at done ⊢
  revert done
  match property.value, property'.value, same.2 with
  | _, _, .none =>
    intro done
    dsimp only at done ⊢
    split at done <;> first | exact done | cases done
  | _, _, .some existing =>
    intro done
    dsimp only at done ⊢
    rw [← holdsAt_same existing value, ← existing.kind_eq]
    split
    · rw [if_pos ‹_›] at done
      exact appendStep_done_same existing done
    · rw [if_neg ‹_›] at done
      split
      · rw [if_pos ‹_›] at done
        exact done
      · rw [if_neg ‹_›] at done
        split at done
        · exact done
        · split at done <;> cases done
        · cases done

theorem walk_done_same {quote quote' : Char} {o o' : Node} (same : Node.Same p.src p'.src o o')
    {path : List String} (done : plan.walk value mode p quote o path = .ok (.done out)) :
    plan.walk value mode p' quote' o' path = .ok (.done out) := by
  induction path generalizing o o' with
  | nil => simp [plan.walk] at done
  | cons key rest ih =>
    unfold plan.walk at done ⊢
    dsimp only at done ⊢
    revert done
    match findProperty p.src o key, findProperty p'.src o' key,
      findProperty_same same.members_rel key with
    | _, _, .none => intro done; cases done
    | some property, some property', .some found =>
      intro done
      dsimp only at done ⊢
      split
      · rw [if_pos ‹_›] at done
        exact congrArg Except.ok (leafStep_done_same found (Except.ok.inj done))
      · rw [if_neg ‹_›] at done
        revert done
        match property.value, property'.value, found.2 with
        | _, _, .none => exact id
        | _, _, .some nested =>
          intro done
          dsimp only at done ⊢
          rw [← nested.kind_eq]
          split
          · rw [if_pos ‹_›] at done
            exact ih nested done
          · rw [if_neg ‹_›] at done
            exact done

/-- Two files whose statements other than imports agree one for one. -/
def SameStatements (s s' : Source) (root root' : Node) : Prop :=
  List.Forall₂ (Node.Same s s') root.statements root'.statements

theorem SameStatements.of_same {root root' : Node} (same : Node.Same s s' root root') :
    SameStatements s s' root root' := by
  unfold SameStatements Node.statements
  exact List.rel_filter (fun _ _ r => by simp only [r.kind_eq]) same.namedChildren_rel

section Statements

variable {β : Type} (r : Node)

theorem find?_statements {P : Node → Bool} (notImport : ∀ c, P c = true → c.kind ≠ .importStatement) :
    r.namedChildren.find? P = r.statements.find? P := by
  rw [Node.statements, List.find?_filter]
  congr 1
  funext c
  by_cases hit : P c = true
  · simp [hit, notImport c hit]
  · simp [hit]

theorem findSome?_statements {F : Node → Option β}
    (ignored : ∀ c, c.kind = .importStatement → F c = none) :
    r.namedChildren.findSome? F = r.statements.findSome? F := by
  rw [Node.statements]
  induction r.namedChildren with
  | nil => rfl
  | cons c cs ih =>
    rw [List.filter_cons, List.findSome?_cons]
    by_cases imported : c.kind = .importStatement
    · rw [ignored c imported, ih, if_neg (by simp [imported])]
    · rw [if_pos (by simp [imported]), List.findSome?_cons, ih]

theorem filterMap_statements {F : Node → Option β}
    (ignored : ∀ c, c.kind = .importStatement → F c = none) :
    r.namedChildren.filterMap F = r.statements.filterMap F := by
  rw [Node.statements, List.filterMap_filter]
  congr 1
  funext c
  by_cases imported : c.kind = .importStatement
  · simp [imported, ignored c imported]
  · simp [imported]

end Statements

namespace Lookup

variable {root root' : Node}

theorem defaultExportValue_same (roots : SameStatements s s' root root') :
    Option.Rel (Node.Same s s') (defaultExportValue root) (defaultExportValue root') := by
  unfold defaultExportValue
  rw [find?_statements root, find?_statements root']
  · have found : Option.Rel (Node.Same s s')
        (root.statements.find? fun c => c.kind == .exportStatement && c.hasToken "default")
        (root'.statements.find? fun c => c.kind == .exportStatement && c.hasToken "default") :=
      roots.find?_rel fun _ _ r => by rw [r.kind_eq, r.hasToken_eq]
    revert found
    generalize (root.statements.find? fun c => c.kind == .exportStatement && c.hasToken "default") = x
    generalize (root'.statements.find? fun c => c.kind == .exportStatement && c.hasToken "default") = x'
    intro found
    cases found with
    | none => exact .none
    | some st => exact (st.child?_rel .value).orElse_rel (st.child?_rel .declaration)
  all_goals
    intro c hit imported
    simp [imported] at hit

theorem moduleExportsValue_same (roots : SameStatements s s' root root') :
    Option.Rel (Node.Same s s') (moduleExportsValue s root) (moduleExportsValue s' root') := by
  unfold moduleExportsValue
  dsimp only
  rw [findSome?_statements root, findSome?_statements root']
  · refine Option.Rel.bind_rel (fun _ _ r => r) (roots.findSome?_rel fun st st' same => ?_)
    rw [← same.kind_eq]
    split
    · exact .none
    · match st.namedChildren.head?, st'.namedChildren.head?, same.namedChildren_rel.head?_rel with
      | _, _, .none => exact .none
      | _, _, .some e =>
        dsimp only
        rw [e.kind_eq, (e.child?_rel .left).map_eq fun _ _ r => r.text_eq]
        split
        · exact .some (e.child?_rel .right)
        · exact .none
  all_goals
    intro c imported
    simp [imported]

theorem variableValue_same (roots : SameStatements s s' root root') (name : String) :
    Option.Rel (Node.Same s s') (variableValue s root name) (variableValue s' root' name) := by
  unfold variableValue
  dsimp only
  rw [filterMap_statements root, filterMap_statements root']
  · have declarations : List.Forall₂ (Node.Same s s')
        (root.statements.filterMap fun c =>
          if c.kind == .lexicalDeclaration || c.kind == .variableDeclaration then some c
          else if c.kind == .exportStatement then c.child? .declaration else none)
        (root'.statements.filterMap fun c =>
          if c.kind == .lexicalDeclaration || c.kind == .variableDeclaration then some c
          else if c.kind == .exportStatement then c.child? .declaration else none) :=
      List.rel_filterMap (fun st st' same => by
        rw [← same.kind_eq]
        split
        · exact .some same
        · split
          · exact same.child?_rel .declaration
          · exact .none) roots
    refine Option.Rel.bind_rel (fun _ _ r => r) (declarations.findSome?_rel fun d d' same => ?_)
    refine Option.Rel.map_rel (fun _ _ r => r.child?_rel .value)
      (same.namedChildren_rel.find?_rel fun v v' r => ?_)
    rw [r.kind_eq, (r.child?_rel .name).map_eq fun _ _ n => n.text_eq]
  all_goals
    intro c imported
    simp [imported]

theorem returnedExpression_same {block block' : Node} (same : Node.Same s s' block block') :
    Option.Rel (Node.Same s s') (returnedExpression block) (returnedExpression block') :=
  (same.namedChildren_rel.find?_rel fun _ _ r => by rw [r.kind_eq]).bind_rel
    fun _ _ r => r.firstMember?_rel

/-- Peeling wrappers off agreeing nodes of files whose statements agree finds agreeing
objects: the induction follows the fuel, one wrapper per step. -/
theorem unwrap_same (roots : SameStatements s s' root root') :
    ∀ (fuel : Nat) {n n' : Node} (callee : Option String), Node.Same s s' n n' →
      Option.Rel (Node.Same s s') (unwrap s root fuel n callee) (unwrap s' root' fuel n' callee)
  | 0, _, _, _, _ => .none
  | fuel + 1, n, n', callee, same => by
    unfold unwrap
    rw [← same.kind_eq]
    split
    · exact .some same
    · have rest : Option.Rel (Node.Same s s')
          ((n.child? .arguments).bind fun args => args.firstMember?.bind fun first =>
            unwrap s root fuel first none)
          ((n'.child? .arguments).bind fun args => args.firstMember?.bind fun first =>
            unwrap s' root' fuel first none) :=
        (same.child?_rel .arguments).bind_rel fun _ _ args =>
          args.firstMember?_rel.bind_rel fun _ _ first => unwrap_same roots fuel none first
      refine (same.child?_rel .callee).bind_rel fun f f' callee' => ?_
      rw [← callee'.text_eq]
      split
      · dsimp only
        split
        · exact .none
        · exact rest
      · exact rest
    · exact same.firstMember?_rel.bind_rel fun _ _ inner => unwrap_same roots fuel callee inner
    · exact same.firstMember?_rel.bind_rel fun _ _ inner => unwrap_same roots fuel callee inner
    · exact same.firstMember?_rel.bind_rel fun _ _ inner => unwrap_same roots fuel callee inner
    · exact same.firstMember?_rel.bind_rel fun _ _ inner => unwrap_same roots fuel callee inner
    · exact arrowBody same
    · exact arrowBody same
    · rw [same.text_eq]
      exact (variableValue_same roots _).bind_rel fun _ _ value => unwrap_same roots fuel callee value
    · exact .none
where
  /-- The body of agreeing functions leads to agreeing objects. -/
  arrowBody {fuel : Nat} {n n' : Node} (same : Node.Same s s' n n') :
      Option.Rel (Node.Same s s')
        ((n.child? .body).bind fun body => if body.kind == .statementBlock then
          (returnedExpression body).bind fun returned => unwrap s root fuel returned none
          else unwrap s root fuel body none)
        ((n'.child? .body).bind fun body => if body.kind == .statementBlock then
          (returnedExpression body).bind fun returned => unwrap s' root' fuel returned none
          else unwrap s' root' fuel body none) := by
    refine (same.child?_rel .body).bind_rel fun body body' sameBody => ?_
    rw [← sameBody.kind_eq]
    split
    · exact (returnedExpression_same sameBody).bind_rel fun _ _ r => unwrap_same roots fuel none r
    · exact unwrap_same roots fuel none sameBody

end Lookup

theorem Locator.find_same {p p' : Parsed} (roots : SameStatements p.src p'.src p.root p'.root)
    (l : Locator) : Option.Rel (Node.Same p.src p'.src) (l.find p) (l.find p') := by
  unfold Locator.find
  rcases l with callee | callee | name
  · exact (Lookup.defaultExportValue_same roots).bind_rel fun _ _ v =>
      Lookup.unwrap_same roots _ callee v
  · exact (Lookup.moduleExportsValue_same roots).bind_rel fun _ _ v =>
      Lookup.unwrap_same roots _ callee v
  · exact (Lookup.variableValue_same roots name).bind_rel fun _ _ v =>
      Lookup.unwrap_same roots _ none v

mutual

theorem importBindings_same (parent : Kind) : ∀ {n n' : Node}, Node.Same s s' n n' →
    importBindings s parent n = importBindings s' parent n'
  | ⟨k, f, a, b, cs⟩, ⟨k', f', a', b', cs'⟩, .intro kind field text children => by
    simp only at kind children
    subst kind
    have same : Node.Same s s' ⟨k, f, a, b, cs⟩ ⟨k, f', a', b', cs'⟩ :=
      .intro rfl field text children
    unfold importBindings
    dsimp only
    split
    · have bound := (same.child?_rel .renamedAs).orElse_rel (same.child?_rel .name)
      revert bound
      generalize (Node.child? ⟨k, f, a, b, cs⟩ .renamedAs).orElse
        (fun _ => Node.child? ⟨k, f, a, b, cs⟩ .name) = x
      generalize (Node.child? ⟨k, f', a', b', cs'⟩ .renamedAs).orElse
        (fun _ => Node.child? ⟨k, f', a', b', cs'⟩ .name) = x'
      intro bound
      cases bound with
      | none => rfl
      | some local_ => dsimp only; rw [local_.text_eq]
    · rw [text, importBindingsAmong_same k children]

theorem importBindingsAmong_same (parent : Kind) : ∀ {cs cs' : List Node},
    List.Forall₂ (Node.Same s s') cs cs' →
    importBindingsAmong s parent cs = importBindingsAmong s' parent cs'
  | [], [], .nil => rfl
  | _ :: _, _ :: _, .cons head tail => by
    rw [importBindingsAmong, importBindingsAmong, head.isNamed_eq, importBindings_same parent head,
      importBindingsAmong_same parent tail]

end

end Monorepo.Codemod
