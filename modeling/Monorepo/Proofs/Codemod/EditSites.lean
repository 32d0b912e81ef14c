import Monorepo.Proofs.Codemod.Properties

/-!
# Where an entry's edit lands, and what it settles

An entry of a patch is planned by a walk down its path from the object the locator finds
(`plan.walk`). When the walk plans an edit, the edit is at one node: the object that misses the
path's next key, the shorthand or the value of the property the path's last key names, or the
array that value is. `EditSite` records the address of that node below the object, and how the
tree the grammar reads after the edit stands there; `walk_editSite` finds it, the laws of
`GrammarLaws` giving the change. After the edit the entry's own walk plans nothing
(`EditSite.settles`), and an entry whose path is neither a prefix of this one's nor has it as a
prefix plans nothing where it planned nothing before (`EditSite.keeps_done`).

The entries are the ones the planner writes in one piece (`Simple`): strings and booleans set at
their path, and calls added to the array there.
-/

namespace List

variable {α β : Type}

theorem forall₂_of_getElem? {R : α → β → Prop} :
    ∀ {l : List α} {l' : List β}, (∀ k : Nat, Option.Rel R l[k]? l'[k]?) → Forall₂ R l l'
  | [], [], _ => .nil
  | [], _ :: _, rel => by simpa using rel 0
  | _ :: _, [], rel => by simpa using rel 0
  | a :: l, b :: l', rel => by
    have head : R a b := by simpa using rel 0
    exact .cons head (forall₂_of_getElem? fun k => by simpa using rel (k + 1))

/-- A sublist of a list related elementwise to another is related to a sublist of the other. -/
theorem Sublist.forall₂_right {R : α → β → Prop} :
    ∀ {A B : List α} {C : List β}, A.Sublist B → Forall₂ R B C → ∃ A', A'.Sublist C ∧ Forall₂ R A A'
  | _, _, _, .slnil, .nil => ⟨[], .slnil, .nil⟩
  | _, _, _, .cons _ sub, .cons _ rel => by
    obtain ⟨A', shorter, related⟩ := Sublist.forall₂_right sub rel
    exact ⟨A', shorter.cons _, related⟩
  | _, _, _, .cons_cons _ sub, .cons head rel => by
    obtain ⟨A', shorter, related⟩ := Sublist.forall₂_right sub rel
    exact ⟨_, shorter.cons_cons _, .cons head related⟩

theorem Forall₂.compose {γ : Type} {R : α → β → Prop} {S : β → γ → Prop} {T : α → γ → Prop}
    (join : ∀ a b c, R a b → S b c → T a c) :
    ∀ {A : List α} {B : List β} {C : List γ}, Forall₂ R A B → Forall₂ S B C → Forall₂ T A C
  | _, _, _, .nil, .nil => .nil
  | _, _, _, .cons first rest, .cons second rest' =>
    .cons (join _ _ _ first second) (Forall₂.compose join rest rest')

end List

namespace Monorepo.Codemod

open Monorepo.Script Monorepo.Json Node

/-- An entry the planner writes in one piece: a string or a boolean set at its path, or a call
added to the array there. `shape` is how the written value reads back. -/
inductive Simple : PatchValue → PatchMode → Shape → Prop
  | string (s : String) {mode : PatchMode} : mode ≠ .append →
      Simple (.literal (.string s)) mode (.string s)
  | bool (b : Bool) {mode : PatchMode} : mode ≠ .append → Simple (.literal (.bool b)) mode (.bool b)
  | call (callee : String) (arguments : List Value) : isCalleeName callee = true →
      Simple (.call callee arguments) .append (.call callee)

/-- The shape of the value of a new property: an appended value is written in an array. -/
def PatchMode.written : PatchMode → Shape → Shape
  | .append, shape => .array shape
  | _, shape => shape

theorem PatchMode.written_of_ne {mode : PatchMode} (notAppend : mode ≠ .append) (shape : Shape) :
    mode.written shape = shape := by
  cases mode <;> simp_all [PatchMode.written]

theorem Simple.written {value : PatchValue} {mode : PatchMode} {shape : Shape}
    (simple : Simple value mode shape) : Written value shape := by
  cases simple with
  | string s => exact .string s
  | bool b => exact .bool b
  | call callee arguments callable => exact .call callee arguments callable

/-- Where the walk of `path` from the object `x` plans its edit, as an address below `x`, and how
the tree the grammar reads after the edit stands there (`change`, from the old node to the new):
strings of the new text are in `quote`. -/
inductive EditSite (s s' : Source) (quote : Char) (mode : PatchMode) (shape : Shape) :
    Node → List String → List Nat → (Node → Node → Prop) → Prop
  /-- The key is missing: `x` gains a property holding the rest of the path. -/
  | insert {x : Node} {key : String} {rest : List String} : findProperty s x key = none →
      EditSite s s' quote mode shape x (key :: rest) []
        (Gains s s' (PairFits s' quote key ((mode.written shape).under rest)))
  /-- The last key names a shorthand property, which becomes a pair. -/
  | shorthand {x m : Node} {key : String} {i : Nat} : mode ≠ .append → LastKeyed s x key i m →
      m.kind = .shorthandPropertyIdentifier →
      EditSite s s' quote mode shape x [key] [i] (Becomes (PairFits s' quote key shape))
  /-- The last key names a pair, whose value is replaced. -/
  | value {x m : Node} {key : String} {i j : Nat} : mode ≠ .append → LastKeyed s x key i m →
      m.kind = .pair → m.childIdx? .value = some j →
      EditSite s s' quote mode shape x [key] [i, j] (Becomes (Fits s' quote shape))
  /-- The last key names a pair holding an array, which gains an element. -/
  | append {x m v : Node} {key : String} {i j : Nat} : mode = .append → LastKeyed s x key i m →
      m.kind = .pair → m.childIdx? .value = some j → m.children[j]? = some v → v.kind = .array →
      EditSite s s' quote mode shape x [key] [i, j] (Gains s s' (Fits s' quote shape))
  /-- The key names a pair holding an object, and the walk goes on into it. -/
  | down {x m v : Node} {key : String} {rest : List String} {i j : Nat} {a : List Nat}
      {change : Node → Node → Prop} : LastKeyed s x key i m → m.kind = .pair →
      m.childIdx? .value = some j → m.children[j]? = some v → v.kind = .object →
      EditSite s s' quote mode shape v rest a change →
      EditSite s s' quote mode shape x (key :: rest) (i :: j :: a) change

section Sites

variable {s s' : Source} {quote : Char} {mode : PatchMode} {shape : Shape}

theorem EditSite.path_ne_nil {x : Node} {path : List String} {a : List Nat}
    {change : Node → Node → Prop} (site : EditSite s s' quote mode shape x path a change) :
    path ≠ [] := by
  cases site <;> simp

theorem EditSite.keepsRole {x : Node} {path : List String} {a : List Nat}
    {change : Node → Node → Prop} (site : EditSite s s' quote mode shape x path a change) :
    KeepsRole (ReplacedAt s s' change a) := by
  cases site with
  | insert => exact fun _ _ gains => ⟨gains.1.symm, gains.2.1.symm⟩
  | shorthand | value | append | down => exact fun _ _ rep => ⟨rep.1, rep.2.1⟩

theorem EditSite.keepsField {x : Node} {path : List String} {a : List Nat}
    {change : Node → Node → Prop} (site : EditSite s s' quote mode shape x path a change) :
    ∀ n n', change n n' → n.field = n'.field := by
  induction site with
  | insert => exact fun _ _ gains => gains.2.1.symm
  | shorthand | value => exact fun _ _ becomes => becomes.1.symm
  | append => exact fun _ _ gains => gains.2.1.symm
  | down _ _ _ _ _ _ ih => exact ih

theorem fields_eq_of_replacedAt {change : Node → Node → Prop} {j : Nat} {a : List Nat} {m m' : Node}
    (rep : ReplacedAt s s' change (j :: a) m m')
    (fieldKept : ∀ c c', ReplacedAt s s' change a c c' → c.field = c'.field) (k : Nat) :
    (m.children[k]?).map (·.field) = (m'.children[k]?).map (·.field) := by
  obtain ⟨-, -, off, c, c', here, here', below⟩ := rep
  by_cases onPath : k = j
  · subst onPath
    simp [here, here', fieldKept c c' below]
  · exact (off k onPath).map_eq fun _ _ same => same.field_eq

theorem childIdx?_congr {m m' : Node}
    (fields : ∀ k : Nat, (m.children[k]?).map (·.field) = (m'.children[k]?).map (·.field))
    (f : Field) : m.childIdx? f = m'.childIdx? f :=
  List.findIdx?_congr fun k => by
    have roles := congrArg (Option.map (· == some f)) (fields k)
    simpa [Option.map_map, Function.comp_def] using roles

theorem keyOf_replacedAt {change : Node → Node → Prop} {j : Nat} {a : List Nat} {m m' : Node}
    (pair : m.kind = .pair) (value : m.childIdx? .value = some j)
    (rep : ReplacedAt s s' change (j :: a) m m')
    (fieldKept : ∀ c c', ReplacedAt s s' change a c c' → c.field = c'.field) :
    keyOf s' m' = keyOf s m := by
  have keyChild : Option.Rel (Node.Same s s') (m.child? .key) (m'.child? .key) := by
    rw [child?_eq_childIdx?, child?_eq_childIdx?, ← childIdx?_congr (fields_eq_of_replacedAt rep fieldKept)]
    cases found : m.childIdx? .key with
    | none => exact .none
    | some k =>
      have differ : k ≠ j := fun same =>
        childIdx?_ne (f := .key) (by decide) value (same ▸ found)
      simpa using rep.2.2.1 k differ
  unfold keyOf
  rw [← rep.1, pair]
  simp only [beq_self_eq_true, if_true]
  exact (keyChild.bind_eq fun _ _ same => propertyKey_same same).symm

theorem valueOf_replacedAt {change : Node → Node → Prop} {j : Nat} {a : List Nat} {m m' : Node}
    (pair : m.kind = .pair) (value : m.childIdx? .value = some j)
    (rep : ReplacedAt s s' change (j :: a) m m')
    (fieldKept : ∀ c c', ReplacedAt s s' change a c c' → c.field = c'.field) :
    ∃ v v', m.children[j]? = some v ∧ valueOf m = some v ∧ valueOf m' = some v' ∧
      ReplacedAt s s' change a v v' := by
  have moved : m'.childIdx? .value = some j := by
    rw [← childIdx?_congr (fields_eq_of_replacedAt rep fieldKept), value]
  have pair' : m'.kind = .pair := rep.1 ▸ pair
  obtain ⟨-, -, -, v, v', here, here', below⟩ := rep
  refine ⟨v, v', here, ?_, ?_, below⟩
  · simp [valueOf, pair, child?_eq_childIdx?, value, here]
  · simp [valueOf, pair', child?_eq_childIdx?, moved, here']

namespace Option.Rel

theorem imp {α β : Type} {R S : α → β → Prop} (h : ∀ a b, R a b → S a b) :
    ∀ {o : Option α} {o' : Option β}, Option.Rel R o o' → Option.Rel S o o'
  | _, _, .none => .none
  | _, _, .some related => .some (h _ _ related)

theorem exists_of_some_right {α β : Type} {R : α → β → Prop} {o : Option α} {b : β}
    (h : Option.Rel R o (Option.some b)) : ∃ a, o = Option.some a ∧ R a b := by
  cases h with
  | some related => exact ⟨_, rfl, related⟩

end Option.Rel

variable {key : String}

theorem LastKeyed.replacedAt {change : Node → Node → Prop} {x x' m : Node} {i : Nat}
    {a : List Nat} (last : LastKeyed s x key i m) (rep : ReplacedAt s s' change (i :: a) x x')
    (kept : ∀ m', ReplacedAt s s' change a m m' →
      (m'.isNamed && !m'.isComment) = true ∧ keyOf s' m' = some key) :
    ∃ m', x'.children[i]? = some m' ∧ ReplacedAt s s' change a m m' ∧
      LastKeyed s' x' key i m' := by
  obtain ⟨hm, -, -, later⟩ := last
  obtain ⟨-, -, off, c, c', here, here', below⟩ := rep
  rw [hm] at here
  cases here
  obtain ⟨member', keyed'⟩ := kept c' below
  refine ⟨c', here', below, here', member', keyed', fun k d lt hd isMember => ?_⟩
  have rel := off k (Nat.ne_of_gt lt)
  rw [hd] at rel
  obtain ⟨old, hold, same⟩ := Option.Rel.exists_of_some_right rel
  rw [← keyOf_same same]
  exact later k old lt hold (by rwa [same.isNamed_eq, same.isComment_eq])

theorem keyedProperty_same {c c' : Node} (same : Node.Same s s' c c') :
    Option.Rel (Property.Same s s')
      (if (c.isNamed && !c.isComment) = true then
        (if keyOf s c = some key then some ⟨c, valueOf c⟩ else none) else none)
      (if (c'.isNamed && !c'.isComment) = true then
        (if keyOf s' c' = some key then some ⟨c', valueOf c'⟩ else none) else none) := by
  rw [← same.isNamed_eq, ← same.isComment_eq, ← keyOf_same same]
  split
  · split
    · exact .some ⟨same, valueOf_same same⟩
    · exact .none
  · exact .none

theorem findProperty_replacedAt_other {change : Node → Node → Prop} {x x' m m' : Node} {i : Nat}
    {a : List Nat} (rep : ReplacedAt s s' change (i :: a) x x') (hm : x.children[i]? = some m)
    (hm' : x'.children[i]? = some m') (old : keyOf s m ≠ some key)
    (new : keyOf s' m' ≠ some key) :
    Option.Rel (Property.Same s s') (findProperty s x key) (findProperty s' x' key) := by
  rw [findProperty_filterMap, findProperty_filterMap]
  refine (List.rel_filterMap (fun _ _ related => related) (List.forall₂_of_getElem? fun k => ?_)).getLast?_rel
  by_cases onPath : k = i
  · subst onPath
    rw [hm, hm']
    exact .some (by simp [old, new])
  · match x.children[k]?, x'.children[k]?, rep.2.2.1 k onPath with
    | _, _, .none => exact .none
    | _, _, .some same => exact .some (keyedProperty_same same)

theorem findProperty_gains_other {fits : Node → Prop} {x x' : Node}
    (gains : Gains s s' fits x x') (other : ∀ m, fits m → keyOf s' m ≠ some key) :
    Option.Rel (Property.Same s s') (findProperty s x key) (findProperty s' x' key) := by
  obtain ⟨-, -, init, m, members, same, fitsM⟩ := gains
  have dropped : ([m].filterMap fun m =>
      if keyOf s' m = some key then some (⟨m, valueOf m⟩ : Property) else none) = [] := by
    simp [other m fitsM]
  rw [findProperty_eq, findProperty_eq, members, List.filterMap_append, dropped, List.append_nil]
  refine (List.rel_filterMap (fun c c' related => ?_) same).getLast?_rel
  rw [keyOf_same related]
  split
  · exact .some ⟨related, valueOf_same related⟩
  · exact .none

theorem findProperty_of_last {src : Source} {x : Node} {init : List Node} {m : Node}
    (members : x.members = init ++ [m]) (keyed : keyOf src m = some key) :
    findProperty src x key = some ⟨m, valueOf m⟩ := by
  rw [findProperty_eq, members, List.filterMap_append]
  simp [keyed]

/-- A member that none of `keys` names: it has no key, or a key not among them. -/
def Unnamed (s : Source) (keys : List String) (m : Node) : Bool :=
  (keyOf s m).all fun k => !keys.contains k

/-- A member read again with the same text and the same key. -/
def KeptAs (s s' : Source) (m m' : Node) : Prop :=
  m.text s = m'.text s' ∧ keyOf s m = keyOf s' m'

/-- The members of `x` that none of `keys` names reappear among the members of `x'`, in their
order, each with its text and its key. -/
def MembersKept (s s' : Source) (keys : List String) (x x' : Node) : Prop :=
  ∃ kept, kept.Sublist x'.members ∧
    List.Forall₂ (KeptAs s s') (x.members.filter (Unnamed s keys)) kept

theorem KeptAs.of_same {m m' : Node} (same : Node.Same s s' m m') : KeptAs s s' m m' :=
  ⟨same.text_eq, keyOf_same same⟩

theorem KeptAs.trans {s'' : Source} {m m' m'' : Node} (first : KeptAs s s' m m')
    (second : KeptAs s' s'' m' m'') : KeptAs s s'' m m'' :=
  ⟨first.1.trans second.1, first.2.trans second.2⟩

theorem KeptAs.unnamed_eq {m m' : Node} {keys : List String} (kept : KeptAs s s' m m') :
    Unnamed s keys m = Unnamed s' keys m' := by
  simp only [Unnamed, kept.2]

theorem unnamed_append {m : Node} (keys keys' : List String) :
    Unnamed s (keys ++ keys') m = (Unnamed s keys m && Unnamed s keys' m) := by
  unfold Unnamed
  cases keyOf s m <;> simp

theorem MembersKept.refl (keys : List String) (x : Node) : MembersKept s s keys x x :=
  ⟨_, List.filter_sublist, List.forall₂_same.mpr fun _ _ => ⟨rfl, rfl⟩⟩

/-- Members kept across two edits are kept across both, for the keys of both. -/
theorem MembersKept.trans {s'' : Source} {keys keys' : List String} {x x' x'' : Node}
    (first : MembersKept s s' keys x x') (second : MembersKept s' s'' keys' x' x'') :
    MembersKept s s'' (keys ++ keys') x x'' := by
  obtain ⟨kept, sub, related⟩ := first
  obtain ⟨kept', sub', related'⟩ := second
  have narrowed := List.rel_filter (p := Unnamed s keys') (q := Unnamed s' keys')
    (fun a b kept => by dsimp only; rw [kept.unnamed_eq]) related
  obtain ⟨kept'', shorter, related''⟩ :=
    List.Sublist.forall₂_right (sub.filter (Unnamed s' keys')) related'
  refine ⟨kept'', shorter.trans sub', ?_⟩
  have both : (x.members.filter (Unnamed s keys)).filter (Unnamed s keys') =
      x.members.filter (Unnamed s (keys ++ keys')) := by
    rw [List.filter_filter]
    congr 1
    funext m
    rw [unnamed_append, Bool.and_comm]
  rw [← both]
  exact List.Forall₂.compose (fun _ _ _ first second => first.trans second) narrowed related''

/-- An object whose children correspond one to one, each pair alike except where the first is
not a member left unnamed by `keys`, keeps its members left unnamed. -/
theorem membersKept_of_children {keys : List String} {x x' : Node}
    (related : List.Forall₂ (fun c c' => Node.Same s s' c c' ∨
      (Unnamed s keys c && (c.isNamed && !c.isComment)) = false) x.children x'.children) :
    MembersKept s s' keys x x' := by
  unfold MembersKept Node.members
  rw [List.filter_filter]
  generalize x.children = cs at related
  generalize x'.children = cs' at related
  induction related with
  | nil => exact ⟨[], .slnil, .nil⟩
  | @cons c c' cs cs' pair rest ih =>
    obtain ⟨kept, sub, keptRelated⟩ := ih
    have later := sub.trans ((List.sublist_cons_self c' cs').filter _)
    rcases pair with same | dropped
    · cases left : (Unnamed s keys c && (c.isNamed && !c.isComment))
      · refine ⟨kept, later, ?_⟩
        rw [List.filter_cons, if_neg (by simp [left])]
        exact keptRelated
      · have isMember : (c'.isNamed && !c'.isComment) = true := by
          rw [← same.isNamed_eq, ← same.isComment_eq]
          exact (Bool.and_eq_true_iff.mp left).2
        refine ⟨c' :: kept, ?_, ?_⟩
        · rw [List.filter_cons, if_pos isMember]
          exact sub.cons_cons c'
        · rw [List.filter_cons, if_pos left]
          exact .cons (KeptAs.of_same same) keptRelated
    · refine ⟨kept, later, ?_⟩
      rw [List.filter_cons, if_neg (by simp [dropped])]
      exact keptRelated

theorem MembersKept.of_same {keys : List String} {x x' : Node} (same : Node.Same s s' x x') :
    MembersKept s s' keys x x' :=
  membersKept_of_children (same.children_rel.imp fun _ _ related => .inl related)

theorem MembersKept.of_gains {fits : Node → Prop} {keys : List String} {x x' : Node}
    (gains : Gains s s' fits x x') : MembersKept s s' keys x x' := by
  obtain ⟨-, -, init, m, members, same, -⟩ := gains
  refine ⟨init.filter (Unnamed s' keys), ?_, ?_⟩
  · rw [members]
    exact List.filter_sublist.trans (List.sublist_append_left init [m])
  · exact (List.rel_filter (fun a b related => by
      dsimp only
      rw [(KeptAs.of_same related).unnamed_eq]) same).imp fun _ _ related => KeptAs.of_same related

/-- An edit below the member its key names keeps the other members. -/
theorem MembersKept.of_replacedAt {change : Node → Node → Prop} {i : Nat} {a : List Nat}
    {x x' m : Node} (rep : ReplacedAt s s' change (i :: a) x x') (keyed : LastKeyed s x key i m) :
    MembersKept s s' [key] x x' := by
  obtain ⟨-, -, others, c, c', here, there, -⟩ := rep
  refine membersKept_of_children (List.forall₂_of_getElem? fun k => ?_)
  by_cases atKey : k = i
  · subst atKey
    rw [here, there]
    have named : c = m := Option.some.inj (here.symm.trans keyed.1)
    subst named
    exact .some (.inr (by simp [Unnamed, keyed.2.2.1]))
  · exact Option.Rel.imp (fun _ _ related => .inl related) (others k atKey)

/-- The edit an entry makes keeps every member of the object its first key does not name. -/
theorem EditSite.membersKept {x x' : Node} {path : List String} {a : List Nat}
    {change : Node → Node → Prop} (site : EditSite s s' quote mode shape x path a change)
    (rep : ReplacedAt s s' change a x x') : MembersKept s s' (path.take 1) x x' := by
  cases site with
  | insert => exact MembersKept.of_gains rep
  | shorthand _ keyed => exact MembersKept.of_replacedAt rep keyed
  | value _ keyed => exact MembersKept.of_replacedAt rep keyed
  | append _ keyed => exact MembersKept.of_replacedAt rep keyed
  | down keyed => exact MembersKept.of_replacedAt rep keyed

end Sites

section Walk

variable {value : PatchValue} {mode : PatchMode} {p p' : Parsed} {quote quote' : Char}
  {out : PatchOutcome}

theorem walk_leaf {x : Node} {key : String} {property : Property}
    (found : findProperty p.src x key = some property) :
    plan.walk value mode p quote x [key] =
      .ok (leafStep p property (ObjectStyle.detect p x quote) key value mode) := by
  rw [plan.walk.eq_def]
  simp only [found, List.isEmpty_nil, if_true]

theorem walk_down {x m v : Node} {key : String} {rest : List String}
    (found : findProperty p.src x key = some ⟨m, some v⟩) (object : v.kind = .object)
    (more : rest ≠ []) :
    plan.walk value mode p quote x (key :: rest) = plan.walk value mode p quote v rest := by
  rw [plan.walk.eq_def]
  simp only [found, object, beq_self_eq_true, if_true, List.isEmpty_iff, more, if_false]

theorem walk_done_of_rel {x x' : Node} {key : String} {rest : List String}
    (rel : Option.Rel (Property.Same p.src p'.src) (findProperty p.src x key)
      (findProperty p'.src x' key))
    (done : plan.walk value mode p quote x (key :: rest) = .ok (.done out)) :
    plan.walk value mode p' quote' x' (key :: rest) = .ok (.done out) := by
  rw [plan.walk.eq_def] at done ⊢
  dsimp only at done ⊢
  revert done
  generalize findProperty p.src x key = found₁ at rel ⊢
  generalize findProperty p'.src x' key = found₂ at rel ⊢
  cases rel with
  | none => intro done; cases done
  | @some property property' found =>
    intro done
    dsimp only at done ⊢
    split
    · rw [if_pos ‹_›] at done
      exact congrArg Except.ok (leafStep_done_same found (Except.ok.inj done))
    · rw [if_neg ‹_›] at done
      revert done
      have values := found.2
      generalize property.value = value₁ at values ⊢
      generalize property'.value = value₂ at values ⊢
      cases values with
      | none => exact id
      | some nested =>
        intro done
        dsimp only at done ⊢
        rw [← nested.kind_eq]
        split
        · rw [if_pos ‹_›] at done
          exact walk_done_same nested done
        · rw [if_neg ‹_›] at done
          exact done

theorem leafStep_append {m v : Node} (style : ObjectStyle) (key : String) :
    leafStep p ⟨m, some v⟩ style key value .append = appendStep p v style.quote value := by
  simp [leafStep]

theorem appendStep_done_of_member {callee : String} {arguments : List Value} {array m : Node}
    (isArray : array.kind = .array) (member : m ∈ array.members)
    (fits : Fits p.src quote (.call callee) m) (q : Char) :
    appendStep p array q (.call callee arguments) = .done .unchanged := by
  have present : array.members.any ((PatchValue.call callee arguments).sameEntry p.src) = true :=
    List.any_eq_true.mpr ⟨m, member, fits.sameEntry_call⟩
  simp [appendStep, isArray, present]

variable {shape : Shape}

theorem leafStep_done_of_fits (simple : Simple value mode shape) (notAppend : mode ≠ .append)
    (quoted : quote = '\'' ∨ quote = '"') {m v : Node} (fits : Fits p.src quote shape v)
    (style : ObjectStyle) (key : String) :
    leafStep p ⟨m, some v⟩ style key value mode = .done .unchanged := by
  have holds : value.holdsAt p.src v = true := by
    cases simple with
    | string str => exact fits.holdsAt_string quoted
    | bool b => exact fits.holdsAt_bool
    | call => exact absurd rfl notAppend
  have notAppend' : (mode == .append) = false := beq_false_of_ne notAppend
  simp [leafStep, notAppend', holds]

theorem leafStep_done_of_written (simple : Simple value mode shape)
    (quoted : quote = '\'' ∨ quote = '"') {m v : Node}
    (fits : Fits p.src quote (mode.written shape) v) (style : ObjectStyle) (key : String) :
    leafStep p ⟨m, some v⟩ style key value mode = .done .unchanged := by
  cases simple with
  | string str notAppend =>
    rw [PatchMode.written_of_ne notAppend] at fits
    exact leafStep_done_of_fits (.string str notAppend) notAppend quoted fits style key
  | bool b notAppend =>
    rw [PatchMode.written_of_ne notAppend] at fits
    exact leafStep_done_of_fits (.bool b notAppend) notAppend quoted fits style key
  | call callee arguments =>
    obtain ⟨isArray, m', members, fitsCall⟩ := fits
    rw [leafStep_append]
    exact appendStep_done_of_member isArray (by simp [members]) fitsCall _

/-- A new last member of an object, read back as a simple entry wrote it under the keys of its
path, is where the entry's walk finds its value in place. The induction is on the keys below
the new member, each an object of one property. -/
theorem walk_done_of_last (simple : Simple value mode shape)
    (quoted : quote = '\'' ∨ quote = '"') :
    ∀ {rest : List String} {x : Node} {init : List Node} {m : Node} {key : String},
      x.members = init ++ [m] → PairFits p.src quote key ((mode.written shape).under rest) m →
      plan.walk value mode p quote' x (key :: rest) = .ok (.done .unchanged)
  | [], _, _, _, _, members, fits => by
    obtain ⟨v, hv, fitsV⟩ := fits.valueOf
    rw [walk_leaf (findProperty_of_last members (fits.keyOf quoted)), hv]
    exact congrArg Except.ok (leafStep_done_of_written simple quoted fitsV _ _)
  | _ :: _, _, _, _, _, members, fits => by
    obtain ⟨v, hv, fitsV⟩ := fits.valueOf
    obtain ⟨object, m', members', fits'⟩ := fits_object.mp fitsV
    have found := findProperty_of_last members (fits.keyOf quoted)
    rw [hv] at found
    rw [walk_down found object (List.cons_ne_nil _ _)]
    exact walk_done_of_last simple quoted (show _ = [] ++ [m'] from members') fits'

theorem member_of_pair {m : Node} (pair : m.kind = .pair) : (m.isNamed && !m.isComment) = true := by
  simp [Node.isNamed, Node.isComment, pair, Kind.isNamed]

/-- After its edit, a simple entry's walk finds its value in place: the edit made the property,
the value or the array element the entry asked for, and every property on the way to it is
still the last under its key. The induction is on the site. -/
theorem EditSite.settles (simple : Simple value mode shape) (quoted : quote = '\'' ∨ quote = '"')
    {x x' : Node} {path : List String} {a : List Nat} {change : Node → Node → Prop}
    (site : EditSite p.src p'.src quote mode shape x path a change)
    (rep : ReplacedAt p.src p'.src change a x x') :
    plan.walk value mode p' quote' x' path = .ok (.done .unchanged) := by
  induction site generalizing x' with
  | insert =>
    obtain ⟨-, -, init, m, members, -, fits⟩ := rep
    exact walk_done_of_last simple quoted members fits
  | shorthand notAppend last =>
    obtain ⟨m', -, becomes, last'⟩ := last.replacedAt rep fun _ becomes =>
      ⟨member_of_pair becomes.2.1, becomes.2.keyOf quoted⟩
    obtain ⟨v', hv', fits⟩ := becomes.2.valueOf
    rw [walk_leaf last'.findProperty, hv']
    exact congrArg Except.ok (leafStep_done_of_fits simple notAppend quoted fits _ _)
  | value notAppend last pair valueAt =>
    have fieldKept : ∀ c c', ReplacedAt p.src p'.src (Becomes (Fits p'.src quote shape)) [] c c' →
        c.field = c'.field := fun _ _ becomes => becomes.1.symm
    obtain ⟨m', -, inside, last'⟩ := last.replacedAt rep fun _ inside =>
      ⟨member_of_pair (inside.1 ▸ pair),
        (keyOf_replacedAt pair valueAt inside fieldKept).trans last.2.2.1⟩
    obtain ⟨v, v', -, -, hv', becomes⟩ := valueOf_replacedAt pair valueAt inside fieldKept
    rw [walk_leaf last'.findProperty, hv']
    exact congrArg Except.ok (leafStep_done_of_fits simple notAppend quoted becomes.2 _ _)
  | append isAppend last pair valueAt child isArray =>
    subst isAppend
    obtain ⟨callee, arguments, callable, rfl, rfl⟩ : ∃ callee arguments,
        isCalleeName callee = true ∧ value = .call callee arguments ∧ shape = .call callee := by
      cases simple with
      | string _ notAppend => exact absurd rfl notAppend
      | bool _ notAppend => exact absurd rfl notAppend
      | call callee arguments callable => exact ⟨callee, arguments, callable, rfl, rfl⟩
    have fieldKept : ∀ c c', ReplacedAt p.src p'.src
        (Gains p.src p'.src (Fits p'.src quote (.call callee))) [] c c' → c.field = c'.field :=
      fun _ _ gains => gains.2.1.symm
    obtain ⟨m', -, inside, last'⟩ := last.replacedAt rep fun _ inside =>
      ⟨member_of_pair (inside.1 ▸ pair),
        (keyOf_replacedAt pair valueAt inside fieldKept).trans last.2.2.1⟩
    obtain ⟨v, v', hv, -, hv', gains⟩ := valueOf_replacedAt pair valueAt inside fieldKept
    rw [child] at hv
    cases hv
    obtain ⟨kind, -, init, element, members, -, fits⟩ := gains
    rw [walk_leaf last'.findProperty, hv', leafStep_append]
    exact congrArg Except.ok
      (appendStep_done_of_member (kind.trans isArray) (by simp [members]) fits _)
  | down last pair valueAt child isObject below ih =>
    have fieldKept := fun c c' inside => (below.keepsRole c c' inside).2
    obtain ⟨m', -, inside, last'⟩ := last.replacedAt rep fun _ inside =>
      ⟨member_of_pair (inside.1 ▸ pair),
        (keyOf_replacedAt pair valueAt inside fieldKept).trans last.2.2.1⟩
    obtain ⟨v, v', hv, -, hv', deeper⟩ := valueOf_replacedAt pair valueAt inside fieldKept
    rw [child] at hv
    cases hv
    have found := last'.findProperty
    rw [hv'] at found
    rw [walk_down found ((below.keepsRole _ _ deeper).1 ▸ isObject) below.path_ne_nil]
    exact ih deeper

theorem findProperty_ne_none_of_done {x : Node} {key : String} {rest : List String}
    (done : plan.walk value mode p quote x (key :: rest) = .ok (.done out)) :
    findProperty p.src x key ≠ none := by
  intro missing
  rw [plan.walk.eq_def] at done
  simp only [missing] at done
  cases done

theorem valueOf_of_pair {m v : Node} {j : Nat} (pair : m.kind = .pair)
    (valueAt : m.childIdx? .value = some j) (child : m.children[j]? = some v) :
    valueOf m = some v := by
  simp [valueOf, pair, child?_eq_childIdx?, valueAt, child]

variable {value' : PatchValue} {mode' : PatchMode} {quote'' : Char}

/-- An edit for one simple entry leaves another entry that planned nothing planning nothing,
when neither path is a prefix of the other. Both walks take the same properties down to the
object where their keys part; there the edit adds a property under another key or changes one
under another key, and nothing else the other walk reads. The induction is on the site. -/
theorem EditSite.keeps_done (quoted : quote = '\'' ∨ quote = '"')
    {x x' : Node} {path : List String} {a : List Nat} {change : Node → Node → Prop}
    (site : EditSite p.src p'.src quote mode shape x path a change)
    (rep : ReplacedAt p.src p'.src change a x x') {other : List String}
    (notAbove : ¬ path <+: other) (notBelow : ¬ other <+: path)
    (done : plan.walk value' mode' p quote'' x other = .ok (.done out)) :
    plan.walk value' mode' p' quote' x' other = .ok (.done out) := by
  cases other with
  | nil =>
    rw [plan.walk.eq_def] at done
    cases done
  | cons k restK =>
  induction site generalizing x' k restK with
  | insert missing =>
    rename_i key rest
    by_cases same : k = key
    · subst same
      exact absurd missing (findProperty_ne_none_of_done done)
    · refine walk_done_of_rel (findProperty_gains_other rep fun m fits => ?_) done
      rw [fits.keyOf quoted]
      exact fun keyed => same (Option.some.inj keyed).symm
  | shorthand notAppend last isShorthand =>
    rename_i y m key i
    have differ : k ≠ key := by
      rintro rfl
      exact notAbove (List.prefix_cons_inj k |>.mpr List.nil_prefix)
    obtain ⟨-, -, -, c, c', here, here', becomes⟩ := id rep
    rw [last.1] at here
    cases here
    refine walk_done_of_rel (findProperty_replacedAt_other rep last.1 here' ?_ ?_) done
    · rw [last.2.2.1]
      exact fun keyed => differ (Option.some.inj keyed).symm
    · rw [becomes.2.keyOf quoted]
      exact fun keyed => differ (Option.some.inj keyed).symm
  | value notAppend last pair valueAt =>
    rename_i y m key i j
    have differ : k ≠ key := by
      rintro rfl
      exact notAbove (List.prefix_cons_inj k |>.mpr List.nil_prefix)
    obtain ⟨-, -, -, c, c', here, here', inside⟩ := id rep
    rw [last.1] at here
    cases here
    have kept := keyOf_replacedAt pair valueAt inside fun _ _ becomes => becomes.1.symm
    refine walk_done_of_rel (findProperty_replacedAt_other rep last.1 here' ?_ ?_) done
    · rw [last.2.2.1]
      exact fun keyed => differ (Option.some.inj keyed).symm
    · rw [kept, last.2.2.1]
      exact fun keyed => differ (Option.some.inj keyed).symm
  | append isAppend last pair valueAt child isArray =>
    rename_i y m v key i j
    have differ : k ≠ key := by
      rintro rfl
      exact notAbove (List.prefix_cons_inj k |>.mpr List.nil_prefix)
    obtain ⟨-, -, -, c, c', here, here', inside⟩ := id rep
    rw [last.1] at here
    cases here
    have kept := keyOf_replacedAt pair valueAt inside fun _ _ gains => gains.2.1.symm
    refine walk_done_of_rel (findProperty_replacedAt_other rep last.1 here' ?_ ?_) done
    · rw [last.2.2.1]
      exact fun keyed => differ (Option.some.inj keyed).symm
    · rw [kept, last.2.2.1]
      exact fun keyed => differ (Option.some.inj keyed).symm
  | down last pair valueAt child isObject below ih =>
    rename_i y m v key rest i j b change
    have fieldKept := fun c c' inside => (below.keepsRole c c' inside).2
    obtain ⟨-, -, -, c, c', here, here', inside⟩ := id rep
    rw [last.1] at here
    cases here
    have kept := keyOf_replacedAt pair valueAt inside fieldKept
    by_cases same : k = key
    · subst same
      have notAbove' : ¬ rest <+: restK := fun above =>
        notAbove ((List.prefix_cons_inj k).mpr above)
      have notBelow' : ¬ restK <+: rest := fun above =>
        notBelow ((List.prefix_cons_inj k).mpr above)
      have more : restK ≠ [] := by
        rintro rfl
        exact notBelow ((List.prefix_cons_inj k).mpr List.nil_prefix)
      have found := last.findProperty
      rw [valueOf_of_pair pair valueAt child] at found
      rw [walk_down found isObject more] at done
      obtain ⟨m', -, inside', last'⟩ := last.replacedAt rep fun _ inside =>
        ⟨member_of_pair (inside.1 ▸ pair),
          (keyOf_replacedAt pair valueAt inside fieldKept).trans last.2.2.1⟩
      obtain ⟨v₀, v', hv, -, hv', deeper⟩ := valueOf_replacedAt pair valueAt inside' fieldKept
      rw [child] at hv
      cases hv
      have found' := last'.findProperty
      rw [hv'] at found'
      cases restK with
      | nil => exact absurd rfl more
      | cons k' restK' =>
        rw [walk_down found' ((below.keepsRole _ _ deeper).1 ▸ isObject) more]
        exact ih deeper k' restK' notAbove' notBelow' done
    · refine walk_done_of_rel (findProperty_replacedAt_other rep last.1 here' ?_ ?_) done
      · rw [last.2.2.1]
        exact fun keyed => same (Option.some.inj keyed).symm
      · rw [kept, last.2.2.1]
        exact fun keyed => same (Option.some.inj keyed).symm

theorem shorthand_of_valueOf {src : Source} {m : Node} {key : String}
    (keyed : keyOf src m = some key) (valueless : valueOf m = none)
    (pairValue : m.kind = .pair → (m.child? .value).isSome = true) :
    m.kind = .shorthandPropertyIdentifier := by
  unfold keyOf at keyed
  unfold valueOf at valueless
  by_cases pair : m.kind = .pair
  · rw [if_pos (by simp [pair])] at valueless
    simp [valueless] at pairValue
    exact absurd pair pairValue
  · rw [if_neg (by simpa using pair)] at keyed
    split at keyed
    · rename_i shorthand
      simpa using shorthand
    · cases keyed

theorem valueOf_eq_some {m v : Node} (found : valueOf m = some v) :
    m.kind = .pair ∧ ∃ j, m.childIdx? .value = some j ∧ m.children[j]? = some v := by
  unfold valueOf at found
  split at found
  · rename_i pair
    rw [child?_eq_childIdx?] at found
    cases valueAt : m.childIdx? .value with
    | none => simp [valueAt] at found
    | some j =>
      rw [valueAt, Option.bind_some] at found
      exact ⟨by simpa using pair, j, rfl, found⟩
  · cases found

theorem leafStep_edit_cases {property : Property} {style : ObjectStyle} {key : String}
    {edit : TextEdit} (planned : leafStep p property style key value mode = .edit edit out) :
    (property.value = none ∧ mode ≠ .skip ∧ mode ≠ .append ∧
      edit = .replace property.node.start property.node.stop
        (renderKey key style ++ ": " ++ value.render style)) ∨
    (∃ existing, property.value = some existing ∧ mode = .append ∧
      appendStep p existing style.quote value = .edit edit out) ∨
    (∃ existing, property.value = some existing ∧ mode ≠ .append ∧
      edit = .replace existing.start existing.stop (value.render style)) := by
  unfold leafStep at planned
  split at planned
  · rename_i absent
    split at planned
    · cases planned
    · cases planned
    · rename_i notSkip notAppend
      dsimp only at planned
      cases planned
      exact .inl ⟨absent, notSkip, notAppend, rfl⟩
  · rename_i existing present
    by_cases appending : mode = .append
    · rw [if_pos (by simp [appending])] at planned
      exact .inr (.inl ⟨existing, present, appending, planned⟩)
    · rw [if_neg (by simpa using appending)] at planned
      split at planned
      · cases planned
      · split at planned
        · cases planned
        · split at planned
          · cases planned
          · cases planned
            exact .inr (.inr ⟨existing, present, appending, rfl⟩)
        · cases planned
          exact .inr (.inr ⟨existing, present, appending, rfl⟩)

theorem appendStep_edit_cases {array : Node} {q : Char} {edit : TextEdit}
    (planned : appendStep p array q value = .edit edit out) :
    array.kind = .array ∧
      ((∃ last, array.members.getLast? = some last ∧ edit = afterLastMember p.src array last
          (ObjectStyle.detect p array q) (value.render (ObjectStyle.detect p array q))) ∨
        (array.members = [] ∧ edit = .replace array.start array.stop
          ("[" ++ value.render (ObjectStyle.detect p array q) ++ "]"))) := by
  unfold appendStep at planned
  dsimp only at planned
  split at planned
  · cases planned
  · rename_i isArray
    split at planned
    · cases planned
    · refine ⟨by simpa using isArray, ?_⟩
      split at planned
      · rename_i last hlast
        cases planned
        exact .inl ⟨last, hlast, rfl⟩
      · rename_i empty
        cases planned
        exact .inr ⟨List.getLast?_eq_none_iff.mp empty, rfl⟩

theorem walk_missing {x : Node} {key : String} {rest : List String} {edit : TextEdit}
    (missing : findProperty p.src x key = none)
    (planned : plan.walk value mode p quote x (key :: rest) = .ok (.edit edit out)) :
    edit = insertion p.src x (ObjectStyle.detect p x quote) key rest
      (if mode = .append then
        .raw ("[" ++ value.render (rest.foldl (fun s _ => s.nested) (ObjectStyle.detect p x quote)) ++
          "]")
      else value) := by
  rw [plan.walk.eq_def] at planned
  simp only [missing] at planned
  cases mode <;> cases planned <;> rfl

theorem ObjectStyle.detect_quote (p : Parsed) (object : Node) (quote : Char) :
    (ObjectStyle.detect p object quote).quote = quote := rfl

/-- The edit a simple entry's walk plans lands at a site, and the grammar's laws say how the tree
the edit leaves stands there. The induction is on the path, one walk step at a time. -/
theorem walk_editSite {parse : ScriptParser} (laws : GrammarLaws parse) {language : Language}
    {text origin : String} (parsed : parse language text origin = .ok p)
    (simple : Simple value mode shape) (quoted : quote = '\'' ∨ quote = '"') {edit : TextEdit}
    (reparsed : parse language (edit.splice p.src) origin = .ok p') :
    ∀ {path : List String} {x : Node} {b : List Nat}, p.root.subtreeAt b = some x →
      x.kind = .object → plan.walk value mode p quote x path = .ok (.edit edit out) →
      ∃ a change, EditSite p.src p'.src quote mode shape x path a change ∧
        ReplacedAt p.src p'.src change (b ++ a) p.root p'.root
  | [], _, _, _, _, planned => by
    rw [plan.walk.eq_def] at planned
    cases planned
  | key :: rest, x, b, at_, object, planned => by
    have sane := ObjectStyle.detect_sane p x quoted
    cases found : findProperty p.src x key with
    | none =>
      have inserted := walk_missing found planned
      refine ⟨[], _, .insert found, ?_⟩
      rw [List.append_nil]
      subst inserted
      cases simple with
      | string str notAppend =>
        rw [if_neg notAppend] at reparsed
        have rep := laws.insert_member parsed at_ object sane (.string str) reparsed
        rw [PatchMode.written_of_ne notAppend, ← ObjectStyle.detect_quote p x quote]
        exact rep
      | bool flag notAppend =>
        rw [if_neg notAppend] at reparsed
        have rep := laws.insert_member parsed at_ object sane (.bool flag) reparsed
        rw [PatchMode.written_of_ne notAppend, ← ObjectStyle.detect_quote p x quote]
        exact rep
      | call callee arguments callable =>
        rw [if_pos rfl] at reparsed
        have rep := laws.insert_member parsed at_ object sane
          (.wrapped callee arguments _ callable (sane.foldl_nested rest)) reparsed
        rw [ObjectStyle.detect_quote] at rep
        exact rep
    | some property =>
      obtain ⟨i, last, valueEq⟩ := findProperty_lastKeyed found
      have atMember : p.root.subtreeAt (b ++ [i]) = some property.node :=
        (subtreeAt_concat at_ i).trans last.1
      cases rest with
      | nil =>
        rw [walk_leaf found] at planned
        rcases leafStep_edit_cases (Except.ok.inj planned) with
          ⟨absent, -, notAppend, rfl⟩ | ⟨existing, present, appending, stepped⟩ |
            ⟨existing, present, notAppend, rfl⟩
        · have shorthand := shorthand_of_valueOf last.2.2.1 (valueEq ▸ absent)
            ((laws.shaped parsed).pair_value _ _ atMember)
          have rep := laws.replace_shorthand parsed atMember shorthand sane simple.written reparsed
          rw [ObjectStyle.detect_quote] at rep
          exact ⟨[i], _, .shorthand notAppend last shorthand, rep⟩
        · obtain ⟨pair, j, valueAt, child⟩ := valueOf_eq_some (valueEq ▸ present)
          have atValue : p.root.subtreeAt (b ++ [i, j]) = some existing := by
            rw [subtreeAt_pair at_ i j, last.1, Option.bind_some, child]
          obtain ⟨isArray, lastOrEmpty⟩ := appendStep_edit_cases stepped
          have sane' := ObjectStyle.detect_sane p existing quoted
          refine ⟨[i, j], _, .append appending last pair valueAt child isArray, ?_⟩
          rcases lastOrEmpty with ⟨element, hlast, rfl⟩ | ⟨empty, rfl⟩
          · have rep := laws.append_element parsed atValue isArray hlast sane' simple.written
              reparsed
            rw [ObjectStyle.detect_quote] at rep
            exact rep
          · have rep := laws.append_first parsed atValue isArray empty sane' simple.written reparsed
            rw [ObjectStyle.detect_quote] at rep
            exact rep
        · obtain ⟨pair, j, valueAt, child⟩ := valueOf_eq_some (valueEq ▸ present)
          have replaced := laws.replace_value parsed atMember pair valueAt child sane
            simple.written reparsed
          rw [List.append_assoc, ObjectStyle.detect_quote] at replaced
          exact ⟨[i, j], _, .value notAppend last pair valueAt, replaced⟩
      | cons next rest =>
        rw [plan.walk.eq_def] at planned
        simp only [found, List.isEmpty_cons, Bool.false_eq_true, if_false] at planned
        split at planned
        · rename_i nested present
          split at planned
          · rename_i isObject
            obtain ⟨pair, j, valueAt, child⟩ := valueOf_eq_some (valueEq ▸ present)
            have atNested : p.root.subtreeAt (b ++ [i, j]) = some nested := by
              rw [subtreeAt_pair at_ i j, last.1, Option.bind_some, child]
            obtain ⟨a, change, site, rep⟩ :=
              walk_editSite laws parsed simple quoted reparsed atNested (by simpa using isObject)
                planned
            rw [List.append_assoc] at rep
            exact ⟨i :: j :: a, change,
              .down last pair valueAt child (by simpa using isObject) site, rep⟩
          · cases planned
        · cases planned

end Walk

end Monorepo.Codemod
