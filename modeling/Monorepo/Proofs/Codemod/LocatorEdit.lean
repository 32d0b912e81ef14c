import Monorepo.Proofs.Codemod.LocatorWalk

/-!
# The locator after an edit inside the object it found

The walk from the default export to the object a locator finds reads kinds, roles and child
indices on its way, which an edit inside the object keeps, and the texts of callees, names and
declared names, which stand off the way to the object (`unwrapAt_safeFrom`) and which the edit
therefore leaves alone. So after such an edit the locator finds the edited object at the same
address (`defaultExportLocated_replacedAt`).
-/

namespace Option.Rel

theorem exists_of_some {α β : Type} {R : α → β → Prop} {a : α} {o' : Option β}
    (h : Option.Rel R (Option.some a) o') : ∃ b, o' = Option.some b ∧ R a b := by
  cases h with
  | some related => exact ⟨_, rfl, related⟩

end Option.Rel

namespace Monorepo.Script.Node

/-- Two nodes of one kind and role whose children have, index by index, the same kinds and
roles: a search among the children by kind and role sees them alike. -/
def Alike (x x' : Node) : Prop :=
  x.kind = x'.kind ∧ x.field = x'.field ∧
    ∀ j : Nat, x.children[j]?.map (fun c => (c.kind, c.field)) =
      x'.children[j]?.map (fun c => (c.kind, c.field))

theorem subtreeAt_concat {root x : Node} {b : List Nat} (at_ : root.subtreeAt b = some x)
    (j : Nat) : root.subtreeAt (b ++ [j]) = x.children[j]? := by
  rw [subtreeAt_append, at_, Option.bind_some, subtreeAt_cons]
  cases x.children[j]? <;> simp

namespace Alike

variable {x x' : Node}

theorem findIdx?_eq (alike : Alike x x') (g : Kind × Option Field → Bool) :
    x.children.findIdx? (fun c => g (c.kind, c.field)) =
      x'.children.findIdx? (fun c => g (c.kind, c.field)) :=
  List.findIdx?_congr fun j => by
    have roles := congrArg (Option.map g) (alike.2.2 j)
    rw [Option.map_map, Option.map_map] at roles
    exact roles

theorem childIdx?_eq (alike : Alike x x') (f : Field) : x.childIdx? f = x'.childIdx? f :=
  alike.findIdx?_eq fun role => role.2 == some f

theorem firstMemberIdx?_eq (alike : Alike x x') : x.firstMemberIdx? = x'.firstMemberIdx? :=
  alike.findIdx?_eq fun role => role.1.isNamed && !(role.1 == .comment)

theorem hasToken_eq (alike : Alike x x') (t : String) : x.hasToken t = x'.hasToken t := by
  rw [hasToken, hasToken, ← List.findIdx?_isSome, ← List.findIdx?_isSome]
  exact congrArg Option.isSome (alike.findIdx?_eq fun role => role.1 == .token t)

theorem isSome_eq (alike : Alike x x') (j : Nat) :
    x.children[j]?.isSome = x'.children[j]?.isSome := by
  have roles := congrArg Option.isSome (alike.2.2 j)
  simpa using roles

theorem length_eq (alike : Alike x x') : x.children.length = x'.children.length := by
  by_contra differ
  rcases Nat.lt_or_gt_of_ne differ with shorter | longer
  · have := alike.isSome_eq x.children.length
    simp [shorter] at this
  · have := alike.isSome_eq x'.children.length
    simp [longer] at this

end Alike

theorem Same.alike {s s' : Source} {x x' : Node} (same : Node.Same s s' x x') : Alike x x' :=
  ⟨same.kind_eq, same.field_eq, fun j =>
    (same.children_rel.getElem?_rel j).map_eq fun _ _ child => by
      rw [child.kind_eq, child.field_eq]⟩

section Edit

variable {s s' : Source} {change : Node → Node → Prop} {o : List Nat} {root root' : Node}

theorem ReplacedAt.alike_cons (keep : KeepsRole change) {k : Nat} {a : List Nat} {x x' : Node}
    (h : ReplacedAt s s' change (k :: a) x x') : Alike x x' := by
  obtain ⟨kind, field, off, c, c', here, here', below⟩ := h
  refine ⟨kind, field, fun j => ?_⟩
  by_cases onPath : j = k
  · subst onPath
    obtain ⟨ck, cf⟩ := ReplacedAt.keepsRole keep c c' below
    simp [here, here', ck, cf]
  · exact (off j onPath).map_eq fun _ _ same => by rw [same.kind_eq, same.field_eq]

variable (rep : ReplacedAt s s' change o root root')
include rep

theorem ReplacedAt.same_at {b : List Nat} {x : Node} (at_ : root.subtreeAt b = some x)
    (notBelow : ¬ o <+: b) (notAbove : ¬ b <+: o) :
    ∃ x', root'.subtreeAt b = some x' ∧ Node.Same s s' x x' := by
  have := rep.subtreeAt_off notAbove notBelow
  rw [at_] at this
  exact this.exists_of_some

theorem ReplacedAt.alike_at (keep : KeepsRole change) {b : List Nat} {x : Node}
    (at_ : root.subtreeAt b = some x) (outside : ¬ o <+: b) :
    ∃ x', root'.subtreeAt b = some x' ∧ Alike x x' := by
  by_cases above : b <+: o
  · obtain ⟨t, rfl⟩ := above
    cases t with
    | nil => exact absurd (by simp) outside
    | cons k a =>
      obtain ⟨y, y', hy, hy', below⟩ := rep.subtreeAt_prefix
      rw [at_] at hy
      cases hy
      exact ⟨y', hy', below.alike_cons keep⟩
  · obtain ⟨x', at', same⟩ := rep.same_at at_ outside above
    exact ⟨x', at', same.alike⟩

theorem ReplacedAt.role_at (keep : KeepsRole change) {b : List Nat} {x : Node}
    (at_ : root.subtreeAt b = some x) (notInside : b = o ∨ ¬ o <+: b) :
    ∃ x', root'.subtreeAt b = some x' ∧ x.kind = x'.kind ∧ x.field = x'.field := by
  rcases notInside with rfl | outside
  · obtain ⟨y, y', hy, hy', changed⟩ := rep.subtreeAt_here
    rw [at_] at hy
    cases hy
    exact ⟨y', hy', keep _ _ changed⟩
  · obtain ⟨x', at', alike⟩ := rep.alike_at keep at_ outside
    exact ⟨x', at', alike.1, alike.2.1⟩

end Edit

end Monorepo.Script.Node

namespace Monorepo.Codemod.Lookup

open Monorepo.Script Node

/-- What the walk to the object at `o` guarantees of it: an object stands there, at least two
levels down, and the way to it is safe. -/
structure Located (root : Node) (o : List Nat) : Prop where
  object : ∃ O, root.subtreeAt o = some O ∧ O.kind = .object
  long : 2 ≤ o.length
  safe : SafeFrom root [] o

/-- The test `declaredValueAt` makes of each child of a declaration. -/
def declares (src : Source) (name : String) (v : Node) : Bool :=
  v.isNamed && (v.kind == .variableDeclarator && ((v.child? .name).map (·.text src)) == some name)

theorem declarationAt_alike {i : Nat} {st st' : Node} (alike : Alike st st') :
    declarationAt i st = declarationAt i st' := by
  unfold declarationAt
  rw [alike.1, alike.childIdx?_eq]

theorem declaredValueAt_eq_none {src : Source} {root d : Node} {a : List Nat} (name : String)
    (shaped : WellShaped root) (at_ : root.subtreeAt a = some d)
    (notDeclaration : d.kind ≠ .lexicalDeclaration ∧ d.kind ≠ .variableDeclaration) :
    declaredValueAt src name a d = none := by
  have none : d.children.findIdx? (declares src name) = none := by
    rw [List.findIdx?_eq_none_iff]
    intro v member
    obtain ⟨j, hj⟩ := List.mem_iff_getElem?.mp member
    have notDeclarator : v.kind ≠ .variableDeclarator := fun declarator => by
      rcases shaped.declarator_parent a d j v at_ hj declarator with h | h
      · exact notDeclaration.1 h
      · exact notDeclaration.2 h
    simp [declares, notDeclarator]
  unfold declaredValueAt
  exact congrArg (Option.bind · _) none

theorem findIdx?_children_eq {root root' : Node} {b : List Nat} {x x' : Node} (at_ : root.subtreeAt b = some x)
    (at' : root'.subtreeAt b = some x') (lengths : x.children.length = x'.children.length)
    {P P' : Node → Bool} (agree : ∀ j c c', root.subtreeAt (b ++ [j]) = some c →
      root'.subtreeAt (b ++ [j]) = some c' → P c = P' c') :
    x.children.findIdx? P = x'.children.findIdx? P' := by
  refine List.findIdx?_congr fun j => ?_
  cases hc : x.children[j]? with
  | none =>
    have : x'.children[j]? = none := by
      rw [List.getElem?_eq_none_iff] at hc ⊢
      omega
    rw [this]
    rfl
  | some c =>
    obtain ⟨c', hc'⟩ : ∃ c', x'.children[j]? = some c' := by
      have : j < x'.children.length := by
        rw [← lengths]
        exact (List.getElem?_eq_some_iff.mp hc).1
      exact ⟨_, List.getElem?_eq_getElem this⟩
    rw [hc']
    exact congrArg some
      (agree j c c' (by rw [subtreeAt_concat at_, hc]) (by rw [subtreeAt_concat at', hc']))

section Edit

variable {s s' : Source} {change : Node → Node → Prop} {o : List Nat} {root root' : Node}
  (shaped : WellShaped root) (shaped' : WellShaped root') (located : Located root o)
  (rep : ReplacedAt s s' change o root root') (keep : KeepsRole change)

include located rep keep in
theorem declares_replacedAt (name : String) {a : List Nat} (outside : ¬ o <+: a) {j : Nat}
    {v v' : Node} (hv : root.subtreeAt (a ++ [j]) = some v)
    (hv' : root'.subtreeAt (a ++ [j]) = some v') : declares s name v = declares s' name v' := by
  obtain ⟨O, atO, object⟩ := located.object
  have notInside : a ++ [j] = o ∨ ¬ o <+: a ++ [j] := by
    rw [List.prefix_concat_iff]
    by_cases here : o = a ++ [j]
    · exact .inl here.symm
    · exact .inr fun h => h.elim here outside
  obtain ⟨w, hw, kind, -⟩ := rep.role_at keep hv notInside
  rw [hv'] at hw
  cases hw
  by_cases declarator : v.kind = .variableDeclarator
  · have notObject : a ++ [j] ≠ o := fun h => by
      rw [h, atO] at hv
      cases hv
      rw [object] at declarator
      cases declarator
    have outside' : ¬ o <+: a ++ [j] := notInside.resolve_left notObject
    obtain ⟨w, hw, alike⟩ := rep.alike_at keep hv outside'
    rw [hv'] at hw
    cases hw
    have nameText : (v.child? .name).map (·.text s) = (v'.child? .name).map (·.text s') := by
      rw [child?_eq_childIdx?, child?_eq_childIdx?, ← alike.childIdx?_eq]
      cases hn : v.childIdx? .name with
      | none => rfl
      | some n =>
        have offWay : ¬ a ++ [j] ++ [n] <+: o := by
          rintro ⟨rest, hrest⟩
          have safe := located.safe (a ++ [j]) n rest (by rw [← hrest]; simp) List.nil_prefix
            (by simp) v hv
          exact safe.2 declarator hn
        have notBelow : ¬ o <+: a ++ [j] ++ [n] := by
          rw [List.prefix_concat_iff]
          rintro (h | h)
          · exact offWay (h ▸ List.prefix_refl _)
          · exact outside' h
        obtain ⟨c, hc, -⟩ := childIdx?_spec hn
        obtain ⟨c', hc', same⟩ :=
          rep.same_at (by rw [subtreeAt_concat hv]; exact hc) notBelow offWay
        rw [subtreeAt_concat hv'] at hc'
        simp [hc, hc', same.text_eq]
    simp only [declares, isNamed, kind, nameText]
  · have test : (v.kind == .variableDeclarator) = false := by simpa using declarator
    have test' : (v'.kind == .variableDeclarator) = false := by simpa [← kind] using declarator
    simp only [declares, test, test', Bool.false_and, Bool.and_false]

include shaped shaped' located rep keep in
theorem declaredValueAt_replacedAt (name : String) {a : List Nat} (short : a.length ≤ 2)
    {d : Node} (at_ : root.subtreeAt a = some d) :
    ∃ d', root'.subtreeAt a = some d' ∧
      declaredValueAt s name a d = declaredValueAt s' name a d' := by
  obtain ⟨O, atO, object⟩ := located.object
  have notInside : a = o ∨ ¬ o <+: a := by
    by_cases below : o <+: a
    · have := located.long
      have := below.length_le
      exact .inl (below.eq_of_length (by omega)).symm
    · exact .inr below
  obtain ⟨d', at', kind, -⟩ := rep.role_at keep at_ notInside
  refine ⟨d', at', ?_⟩
  rcases notInside with rfl | outside
  · rw [atO] at at_
    cases at_
    have notDeclaration : ∀ k : Kind, k = .object →
        k ≠ .lexicalDeclaration ∧ k ≠ .variableDeclaration := by
      rintro k rfl
      simp
    rw [declaredValueAt_eq_none name shaped atO (notDeclaration _ object),
      declaredValueAt_eq_none name shaped' at' (notDeclaration _ (kind ▸ object))]
  · obtain ⟨w, hw, alike⟩ := rep.alike_at keep at_ outside
    rw [at'] at hw
    cases hw
    have found : d.children.findIdx? (declares s name) = d'.children.findIdx? (declares s' name) :=
      findIdx?_children_eq at_ at' alike.length_eq fun _ _ _ hv hv' =>
        declares_replacedAt located rep keep name outside hv hv'
    show (d.children.findIdx? (declares s name)).bind _ =
      (d'.children.findIdx? (declares s' name)).bind _
    rw [← found]
    refine Option.bind_congr fun j hj => ?_
    obtain ⟨v, hv, isDeclarator⟩ := List.findIdx?_spec hj
    have declarator : v.kind = .variableDeclarator := by
      simp only [declares, Bool.and_eq_true, beq_iff_eq] at isDeclarator
      exact isDeclarator.2.1
    have atV : root.subtreeAt (a ++ [j]) = some v := by rw [subtreeAt_concat at_]; exact hv
    have notObject : a ++ [j] ≠ o := fun h => by
      rw [h, atO] at atV
      cases atV
      rw [object] at declarator
      cases declarator
    have outside' : ¬ o <+: a ++ [j] := by
      rw [List.prefix_concat_iff]
      rintro (h | h)
      · exact notObject h.symm
      · exact outside h
    obtain ⟨v', hv', alike'⟩ := rep.alike_at keep atV outside'
    rw [subtreeAt_concat at'] at hv'
    simp [hv, hv', alike'.childIdx?_eq]

include located rep keep in
theorem statement_alike {i : Nat} {st : Node} (hst : root.children[i]? = some st) :
    ∃ st', root'.children[i]? = some st' ∧ Alike st st' := by
  have outside : ¬ o <+: [i] := fun below => by
    have long := located.long
    have short := below.length_le
    simp only [List.length_cons, List.length_nil] at short
    omega
  obtain ⟨st', hst', alike⟩ := rep.alike_at keep (b := [i]) (by simpa using hst) outside
  exact ⟨st', by simpa using hst', alike⟩

include located rep keep in
theorem roots_alike : Alike root root' := by
  cases o with
  | nil => exact absurd located.long (by simp)
  | cons k a => exact rep.alike_cons keep

include shaped shaped' located rep keep in
theorem variableAt_replacedAt (name : String) :
    variableAt s' root' name = variableAt s root name := by
  have roots := roots_alike located rep keep
  have pointwise : ∀ i : Nat, (root'.children[i]?.bind fun st => if st.isNamed then
      (declarationAt i st).bind fun a => (root'.subtreeAt a).bind (declaredValueAt s' name a)
      else none) = (root.children[i]?.bind fun st => if st.isNamed then
      (declarationAt i st).bind fun a => (root.subtreeAt a).bind (declaredValueAt s name a)
      else none) := by
    intro i
    cases hst : root.children[i]? with
    | none =>
      have : root'.children[i]? = none := by
        rw [List.getElem?_eq_none_iff] at hst ⊢
        rw [← roots.length_eq]
        exact hst
      rw [this]
      rfl
    | some st =>
      obtain ⟨st', hst', alike⟩ := statement_alike located rep keep hst
      rw [hst', Option.bind_some, Option.bind_some, isNamed, isNamed, ← alike.1,
        ← declarationAt_alike alike]
      split
      · refine Option.bind_congr fun a ha => ?_
        obtain ⟨d, hd, short⟩ : ∃ d, root.subtreeAt a = some d ∧ a.length ≤ 2 := by
          rcases declarationAt_cases ha with ⟨rfl, -⟩ | ⟨j, rfl, -, hj⟩
          · exact ⟨st, by simp [hst], by simp⟩
          · obtain ⟨c, hc, -⟩ := childIdx?_spec hj
            exact ⟨c, by simp [hst, hc], by simp⟩
        obtain ⟨d', hd', same⟩ :=
          declaredValueAt_replacedAt shaped shaped' located rep keep name short hd
        rw [hd, hd', Option.bind_some, Option.bind_some, same]
      · rfl
  unfold variableAt
  rw [← roots.length_eq, funext pointwise]

include located rep keep in
theorem defaultExportAt_replacedAt : defaultExportAt root' = defaultExportAt root := by
  have roots := roots_alike located rep keep
  have found : root'.children.findIdx? (fun s => s.isNamed &&
        (s.kind == .exportStatement && s.hasToken "default")) =
      root.children.findIdx? (fun s => s.isNamed &&
        (s.kind == .exportStatement && s.hasToken "default")) := by
    refine (findIdx?_children_eq (b := []) rfl rfl roots.length_eq fun j c c' hc hc' => ?_).symm
    obtain ⟨c'', hc'', alike⟩ := statement_alike located rep keep (by simpa using hc)
    rw [show root'.subtreeAt ([] ++ [j]) = root'.children[j]? by simp, hc''] at hc'
    cases hc'
    simp only [isNamed, alike.1, alike.hasToken_eq]
  unfold defaultExportAt
  rw [found]
  refine Option.bind_congr fun i _ => ?_
  cases hst : root.children[i]? with
  | none =>
    have : root'.children[i]? = none := by
      rw [List.getElem?_eq_none_iff] at hst ⊢
      rw [← roots.length_eq]
      exact hst
    rw [this]
  | some st =>
    obtain ⟨st', hst', alike⟩ := statement_alike located rep keep hst
    simp only [hst', Option.bind_eq_bind, Option.bind_some, alike.childIdx?_eq]

include shaped located in
/-- The declared value a name leads to never stands strictly inside the object the walk found:
it is the value of a declarator, and neither a declarator nor a declaration holding one is an
object. -/
theorem variableAt_notInside {name : String} {c : List Nat}
    (found : variableAt s root name = some c) : c = o ∨ ¬ o <+: c := by
  obtain ⟨O, atO, object⟩ := located.object
  obtain ⟨i, st, a, j, x, v, hst, ha, hx, declarator, -, rfl⟩ := variableAt_spec found
  have short : a.length ≤ 2 := by
    rcases declarationAt_cases ha with ⟨rfl, -⟩ | ⟨d, rfl, -⟩ <;> simp
  have notAtDeclarator : a ++ [j] ≠ o := fun h => by
    rw [h, atO] at hx
    cases hx
    rw [object] at declarator
    cases declarator
  have notAtDeclaration : a ≠ o := fun h => by
    have child := subtreeAt_concat (h ▸ atO) j
    rw [hx] at child
    rcases shaped.declarator_parent a O j x (h ▸ atO) child.symm declarator with k | k <;>
      rw [object] at k <;> cases k
  by_cases here : a ++ [j, v] = o
  · exact .inl here
  · refine .inr fun below => ?_
    have : o <+: a ++ [j] ++ [v] := by simpa using below
    rcases List.prefix_concat_iff.mp this with h | h
    · exact here (by simpa using h.symm)
    rcases List.prefix_concat_iff.mp h with h | h
    · exact notAtDeclarator h.symm
    · have long := located.long
      exact notAtDeclaration (h.eq_of_length (by have := h.length_le; omega)).symm

theorem outside_concat {o b : List Nat} (outside : ¬ o <+: b) (j : Nat) :
    b ++ [j] = o ∨ ¬ o <+: b ++ [j] := by
  rw [List.prefix_concat_iff]
  by_cases here : o = b ++ [j]
  · exact .inl here.symm
  · exact .inr fun h => h.elim here outside

include located in
theorem ne_of_kind {b : List Nat} {x : Node} (at_ : root.subtreeAt b = some x)
    (kind : x.kind ≠ .object) : b ≠ o := fun h => by
  obtain ⟨O, atO, object⟩ := located.object
  rw [h, atO] at at_
  cases at_
  exact kind object

include shaped shaped' located rep keep in
theorem WalkStep.replacedAt {b next : List Nat} {callee callee' : Option String}
    (step : WalkStep s root b callee next callee') (nonempty : b ≠ [])
    (notInside : b = o ∨ ¬ o <+: b) :
    WalkStep s' root' b callee next callee' ∧ (next = o ∨ ¬ o <+: next) := by
  cases step with
  | @call x i f k args j at_ kind hi hf check hk hargs hj =>
    have outside := notInside.resolve_left (ne_of_kind located at_ (by simp [kind]))
    obtain ⟨x', at', alike⟩ := rep.alike_at keep at_ outside
    have offWay : ¬ b ++ [i] <+: o := by
      rintro ⟨rest, hrest⟩
      have safe := located.safe b i rest (by rw [← hrest]; simp) List.nil_prefix nonempty x at_
      exact safe.1 kind hi
    have notBelow : ¬ o <+: b ++ [i] := by
      rw [List.prefix_concat_iff]
      rintro (h | h)
      · exact offWay (h ▸ List.prefix_refl _)
      · exact outside h
    obtain ⟨f', hf', same⟩ := rep.same_at (by rw [subtreeAt_concat at_]; exact hf) notBelow offWay
    rw [subtreeAt_concat at'] at hf'
    have argsAt : root.subtreeAt (b ++ [k]) = some args := by rw [subtreeAt_concat at_]; exact hargs
    have argsKind := shaped.arguments_kind b x k args at_ kind hk hargs
    have argsOutside : ¬ o <+: b ++ [k] :=
      (outside_concat outside k).resolve_left
        (ne_of_kind located argsAt (by rcases argsKind with h | h <;> simp [h]))
    obtain ⟨args', hargs', alikeArgs⟩ := rep.alike_at keep argsAt argsOutside
    rw [subtreeAt_concat at'] at hargs'
    refine ⟨.call at' (alike.1 ▸ kind) (alike.childIdx?_eq _ ▸ hi) hf'
      (fun e he => same.text_eq ▸ check e he) (alike.childIdx?_eq _ ▸ hk) hargs'
      (alikeArgs.firstMemberIdx?_eq ▸ hj), ?_⟩
    simpa using outside_concat argsOutside j
  | @wrapper x j at_ kind hj =>
    obtain ⟨-, -, notObject, -⟩ := wrapperKinds_ne kind
    have outside := notInside.resolve_left (ne_of_kind located at_ notObject)
    obtain ⟨x', at', alike⟩ := rep.alike_at keep at_ outside
    exact ⟨.wrapper at' (alike.1 ▸ kind) (alike.firstMemberIdx?_eq ▸ hj), outside_concat outside j⟩
  | @body x k body at_ kind hk hbody block =>
    have outside := notInside.resolve_left
      (ne_of_kind located at_ (by rcases kind with h | h <;> simp [h]))
    obtain ⟨x', at', alike⟩ := rep.alike_at keep at_ outside
    have bodyAt : root.subtreeAt (b ++ [k]) = some body := by
      rw [subtreeAt_concat at_]; exact hbody
    obtain ⟨body', hbody', bodyKind, -⟩ := rep.role_at keep bodyAt (outside_concat outside k)
    rw [subtreeAt_concat at'] at hbody'
    exact ⟨.body at' (alike.1 ▸ kind) (alike.childIdx?_eq _ ▸ hk) hbody' (bodyKind ▸ block),
      outside_concat outside k⟩
  | @returned x k body r ret m at_ kind hk hbody block hr hret hm =>
    have outside := notInside.resolve_left
      (ne_of_kind located at_ (by rcases kind with h | h <;> simp [h]))
    obtain ⟨x', at', alike⟩ := rep.alike_at keep at_ outside
    have bodyAt : root.subtreeAt (b ++ [k]) = some body := by
      rw [subtreeAt_concat at_]; exact hbody
    have bodyOutside : ¬ o <+: b ++ [k] :=
      (outside_concat outside k).resolve_left (ne_of_kind located bodyAt (by simp [block]))
    obtain ⟨body', bodyAt', alikeBody⟩ := rep.alike_at keep bodyAt bodyOutside
    have hbody' : x'.children[k]? = some body' := by rw [← subtreeAt_concat at']; exact bodyAt'
    obtain ⟨ret0, hret0, isReturn⟩ := List.findIdx?_spec hr
    rw [hret] at hret0
    cases hret0
    have retKind : ret.kind = .returnStatement := by
      simp only [Bool.and_eq_true, beq_iff_eq] at isReturn
      exact isReturn.2
    have retAt : root.subtreeAt (b ++ [k] ++ [r]) = some ret := by
      rw [subtreeAt_concat bodyAt]; exact hret
    have retOutside : ¬ o <+: b ++ [k] ++ [r] :=
      (outside_concat bodyOutside r).resolve_left (ne_of_kind located retAt (by simp [retKind]))
    obtain ⟨ret', retAt', alikeRet⟩ := rep.alike_at keep retAt retOutside
    have hret' : body'.children[r]? = some ret' := by
      rw [← subtreeAt_concat bodyAt']; exact retAt'
    have returns : body.children.findIdx? (fun c => c.isNamed && c.kind == .returnStatement) =
        body'.children.findIdx? (fun c => c.isNamed && c.kind == .returnStatement) :=
      alikeBody.findIdx?_eq fun role => role.1.isNamed && role.1 == .returnStatement
    refine ⟨.returned at' (alike.1 ▸ kind) (alike.childIdx?_eq _ ▸ hk) hbody' (alikeBody.1 ▸ block)
      (returns.symm.trans hr) hret' (alikeRet.firstMemberIdx?_eq ▸ hm), ?_⟩
    simpa using outside_concat retOutside m
  | @jump x c at_ kind hc =>
    have outside := notInside.resolve_left (ne_of_kind located at_ (by simp [kind]))
    have offWay : ¬ b <+: o := by
      rintro ⟨rest, hrest⟩
      cases rest with
      | nil => exact outside ⟨[], by simpa using hrest.symm⟩
      | cons k rest =>
        obtain ⟨O, atO, -⟩ := located.object
        rw [← hrest, subtreeAt_append, at_, Option.bind_some, subtreeAt_cons,
          shaped.identifier_leaf b x at_ kind] at atO
        simp at atO
    obtain ⟨x', at', same⟩ := rep.same_at at_ outside offWay
    refine ⟨.jump at' (same.kind_eq ▸ kind) ?_, variableAt_notInside shaped located hc⟩
    rw [← same.text_eq, variableAt_replacedAt shaped shaped' located rep keep]
    exact hc

include shaped shaped' located rep keep in
theorem unwrapAt_replacedAt : ∀ {fuel : Nat} {b : List Nat} {callee : Option String},
    2 ≤ b.length → (b = o ∨ ¬ o <+: b) → unwrapAt s root fuel b callee = some o →
      unwrapAt s' root' fuel b callee = some o
  | 0, _, _, _, _, h => absurd h (by simp [unwrapAt])
  | _ + 1, b, _, long, notInside, h => by
    rcases unwrapAt_succ_cases h with ⟨x, at_, kind, rfl⟩ | ⟨next, _, step, rest⟩
    · obtain ⟨x', at', kind', -⟩ := rep.role_at keep at_ (.inl rfl)
      simp [unwrapAt, at', ← kind', kind]
    · have nonempty : b ≠ [] := by rintro rfl; simp at long
      obtain ⟨step', notInside'⟩ := step.replacedAt shaped shaped' located rep keep nonempty notInside
      rw [step'.unwrapAt_succ]
      exact unwrapAt_replacedAt (step.two_le_length long) notInside' rest

end Edit

/-- The address of the object the default-export locator finds. -/
def exportedObjectAt (callee : Option String) (p : Parsed) : Option (List Nat) :=
  (defaultExportAt p.root).bind fun b => unwrapAt p.src p.root (maxWrappers + 1) b callee

theorem find_defaultExport (callee : Option String) (p : Parsed) :
    (Locator.defaultExport callee).find p = (exportedObjectAt callee p).bind p.root.subtreeAt := by
  simp only [Locator.find, defaultExportValue_eq, exportedObjectAt, Option.bind_assoc]
  exact Option.bind_congr fun b _ => unwrap_eq _ b callee

theorem defaultExportAt_spec {root : Node} {b : List Nat} (found : defaultExportAt root = some b) :
    ∃ i v st, b = [i, v] ∧ root.children[i]? = some st ∧ st.kind = .exportStatement := by
  unfold defaultExportAt at found
  simp only [Option.bind_eq_bind, Option.bind_eq_some_iff] at found
  obtain ⟨i, hi, st, hst, v, -, hv⟩ := found
  obtain ⟨st', hst', isExport⟩ := List.findIdx?_spec hi
  rw [hst] at hst'
  cases hst'
  simp only [Bool.and_eq_true, beq_iff_eq] at isExport
  exact ⟨i, v, st, (Option.some.inj hv).symm, hst, isExport.2.1⟩

theorem exportedObjectAt_located {callee : Option String} {p : Parsed} {o : List Nat}
    (shaped : WellShaped p.root) (found : exportedObjectAt callee p = some o) :
    Located p.root o := by
  obtain ⟨b, hb, walk⟩ := Option.bind_eq_some_iff.mp found
  obtain ⟨i, v, st, rfl, hst, export_⟩ := defaultExportAt_spec hb
  refine ⟨unwrapAt_object walk, unwrapAt_two_le_length walk (by simp), ?_⟩
  rcases unwrapAt_safeFrom shaped walk with ⟨below, safe⟩ | safe
  · have fromStatement : SafeFrom p.root [i] o :=
      safe.up below fun _ => safeAt_of_kind (x := st) (by simp [hst]) (by simp [export_])
        (by simp [export_]) v
    exact fromStatement.up (b := []) ((List.prefix_append [i] [v]).trans below)
      fun nonempty => absurd rfl nonempty
  · exact safe

theorem exportedObjectAt_replacedAt {callee : Option String} {p p' : Parsed} {o : List Nat}
    {change : Node → Node → Prop} (shaped : WellShaped p.root) (shaped' : WellShaped p'.root)
    (found : exportedObjectAt callee p = some o)
    (rep : ReplacedAt p.src p'.src change o p.root p'.root) (keep : KeepsRole change) :
    exportedObjectAt callee p' = some o := by
  have located := exportedObjectAt_located shaped found
  obtain ⟨b, hb, walk⟩ := Option.bind_eq_some_iff.mp found
  obtain ⟨i, v, st, rfl, -, -⟩ := defaultExportAt_spec hb
  have notInside : [i, v] = o ∨ ¬ o <+: [i, v] := by
    by_cases below : o <+: [i, v]
    · have long := located.long
      exact .inl (below.eq_of_length (by have := below.length_le; simp at this ⊢; omega)).symm
    · exact .inr below
  unfold exportedObjectAt
  rw [defaultExportAt_replacedAt located rep keep, hb, Option.bind_some]
  exact unwrapAt_replacedAt shaped shaped' located rep keep (by simp) notInside walk

end Monorepo.Codemod.Lookup
