import Mathlib
import Monorepo.Codemod.Patch

/-!
# Where an entry's edit falls

Every entry of a patch is planned against the text as it stands, and the edit it plans lies in
the object the locator finds in that text: inside the member its first key names, or after the
object's last member when the key is new. Every other member of the object is left whole. This
holds of any tree whose nodes nest (each within its parent, siblings one after another), which
`Node.Nested` checks.
-/

namespace Monorepo.Script

mutual

/-- Checks that a node starts no later than it stops, that its children lie within it one after
another, and that each of them nests in turn. -/
def Node.nestedCheck : Node → Bool
  | ⟨_, _, s, e, cs⟩ =>
    decide (s ≤ e) && Node.withinCheck s e cs && decide (cs.Pairwise fun c d => c.stop ≤ d.start)

/-- Checks that every node of a list lies within `[s, e]` and nests. -/
def Node.withinCheck (s e : Nat) : List Node → Bool
  | [] => true
  | c :: cs => decide (s ≤ c.start) && decide (c.stop ≤ e) && Node.nestedCheck c &&
      Node.withinCheck s e cs

end

/-- A tree whose every node lies within its parent, its children one after another. -/
def Node.Nested (n : Node) : Prop := n.nestedCheck = true

instance (n : Node) : Decidable n.Nested := inferInstanceAs (Decidable (_ = true))

theorem Node.withinCheck_iff {s e : Nat} {cs : List Node} :
    Node.withinCheck s e cs = true ↔ ∀ c ∈ cs, s ≤ c.start ∧ c.stop ≤ e ∧ c.Nested := by
  induction cs with
  | nil => simp [Node.withinCheck]
  | cons c cs ih => simp [Node.withinCheck, ih, Node.Nested, and_assoc]

namespace Node.Nested

variable {n : Node} (nested : n.Nested)
include nested

theorem le : n.start ≤ n.stop := by
  obtain ⟨k, f, s, e, cs⟩ := n
  simp only [Node.Nested, Node.nestedCheck, Bool.and_eq_true, decide_eq_true_eq] at nested
  exact nested.1.1

theorem child {c : Node} (member : c ∈ n.children) :
    n.start ≤ c.start ∧ c.stop ≤ n.stop ∧ c.Nested := by
  obtain ⟨k, f, s, e, cs⟩ := n
  simp only [Node.Nested, Node.nestedCheck, Bool.and_eq_true, decide_eq_true_eq] at nested
  exact Node.withinCheck_iff.mp nested.1.2 c member

theorem ordered : n.children.Pairwise fun c d => c.stop ≤ d.start := by
  obtain ⟨k, f, s, e, cs⟩ := n
  simp only [Node.Nested, Node.nestedCheck, Bool.and_eq_true, decide_eq_true_eq] at nested
  exact nested.2

end Node.Nested

theorem Node.mem_of_mem_after {n c d : Node} (member : d ∈ n.after c) : d ∈ n.children :=
  ((List.drop_sublist 1 _).trans (List.dropWhile_sublist _)).subset member

theorem stop_le_of_mem_after_first {l : List Node} {c d : Node}
    (ordered : l.Pairwise fun a b => a.stop ≤ b.start)
    (member : d ∈ (l.dropWhile fun x =>
      !(x.start == c.start && x.stop == c.stop && x.kind == c.kind)).drop 1) :
    c.stop ≤ d.start := by
  induction l with
  | nil => simp at member
  | cons x xs ih =>
    rw [List.pairwise_cons] at ordered
    rw [List.dropWhile_cons] at member
    split at member
    · exact ih ordered.2 member
    · rename_i matched
      simp only [Bool.not_eq_true', Bool.not_eq_false, Bool.and_eq_true, beq_iff_eq] at matched
      simp only [List.drop_succ_cons, List.drop_zero] at member
      exact matched.1.2 ▸ ordered.1 d member

theorem Node.stop_le_of_mem_after {n c d : Node}
    (ordered : n.children.Pairwise fun a b => a.stop ≤ b.start) (member : d ∈ n.after c) :
    c.stop ≤ d.start :=
  stop_le_of_mem_after_first ordered member

theorem Source.bytes_of_le {src : Source} {a b : Nat} (le : b ≤ a) : src.bytes a b = "" := by
  simp [Source.bytes, String.Pos.Raw.extract, le]

theorem stop_le_of_getLast {l : List Node} {m last : Node}
    (ordered : l.Pairwise fun a b => a.stop ≤ b.start) (lastIs : l.getLast? = some last)
    (lastLe : last.start ≤ last.stop) (member : m ∈ l) : m.stop ≤ last.stop := by
  obtain ⟨init, rfl⟩ := List.getLast?_eq_some_iff.mp lastIs
  rcases List.mem_append.mp member with early | final
  · have before := (List.pairwise_append.mp ordered).2.2 m early last List.mem_cons_self
    omega
  · rw [List.mem_singleton.mp final]

end Monorepo.Script

namespace Monorepo.Codemod

open Monorepo.Script

/-- An edit whose replaced bytes lie within a node's range. -/
def TextEdit.Inside (ed : TextEdit) (n : Node) : Prop := n.start ≤ ed.start ∧ ed.stop ≤ n.stop

theorem TextEdit.Inside.of_child {ed : TextEdit} {n c : Node} (inside : ed.Inside c)
    (nested : n.Nested) (member : c ∈ n.children) : ed.Inside n := by
  obtain ⟨start, stop, -⟩ := nested.child member
  exact ⟨le_trans start inside.1, le_trans inside.2 stop⟩

theorem foldl_fst_cases {l : List Node} {f : Nat × Bool → Node → Nat × Bool}
    (step : ∀ acc d, (f acc d).1 = acc.1 ∨ (f acc d).1 = d.stop) :
    ∀ acc, (l.foldl f acc).1 = acc.1 ∨ ∃ d ∈ l, (l.foldl f acc).1 = d.stop := by
  induction l with
  | nil => intro acc; exact .inl rfl
  | cons x xs ih =>
    intro acc
    rw [List.foldl_cons]
    rcases ih (f acc x) with same | ⟨d, member, found⟩
    · rcases step acc x with kept | set
      · exact .inl (same.trans kept)
      · exact .inr ⟨x, List.mem_cons_self, same.trans set⟩
    · exact .inr ⟨d, List.mem_cons_of_mem x member, found⟩

theorem trailingCommentEnd_cases (src : Source) (parent node : Node) :
    trailingCommentEnd src parent node = node.stop ∨
      ∃ d ∈ parent.after node, trailingCommentEnd src parent node = d.stop := by
  unfold trailingCommentEnd
  exact foldl_fst_cases (fun acc d => by split_ifs <;> simp) _

theorem trailingCommentEnd_le {src : Source} {parent node : Node} (nested : parent.Nested)
    (member : node ∈ parent.children) : trailingCommentEnd src parent node ≤ parent.stop := by
  rcases trailingCommentEnd_cases src parent node with same | ⟨d, later, found⟩
  · rw [same]
    exact (nested.child member).2.1
  · rw [found]
    exact (nested.child (Node.mem_of_mem_after later)).2.1

theorem Node.after_sublist (n c : Node) : List.Sublist (n.after c) n.children :=
  (List.drop_sublist 1 _).trans (List.dropWhile_sublist _)

theorem foldl_run_stop (q : Node → Bool) :
    ∀ (l : List Node) (x : Node), (l.foldl (fun (acc : Nat × Bool) n =>
        if acc.2 then acc else if q n then (n.stop, false) else (acc.1, true)) (x.stop, false)).1 =
      ((x :: l.takeWhile q).getLast (List.cons_ne_nil _ _)).stop := by
  have stopped : ∀ (l : List Node) (a : Nat), l.foldl (fun (acc : Nat × Bool) n =>
      if acc.2 then acc else if q n then (n.stop, false) else (acc.1, true)) (a, true) = (a, true) := by
    intro l
    induction l with
    | nil => intro a; rfl
    | cons y ys ih => intro a; exact ih a
  intro l
  induction l with
  | nil => intro x; rfl
  | cons y ys ih =>
    intro x
    rw [List.foldl_cons, List.takeWhile_cons]
    cases qy : q y
    · simp only [Bool.false_eq_true, if_false]
      rw [stopped]
      rfl
    · simp only [if_true, if_false, Bool.false_eq_true]
      rw [ih y, List.getLast_cons_cons]

/-- The end of the run of comments that follows `node` on its row: where an import goes after
the last import statement. -/
theorem trailingCommentEnd_eq_run (src : Source) (parent node : Node) :
    trailingCommentEnd src parent node = ((node :: (parent.after node).takeWhile fun n =>
      n.isComment && src.row n.start == src.row node.stop).getLast (List.cons_ne_nil _ _)).stop :=
  foldl_run_stop _ _ _

/-- Where a file takes a new import statement: right after the last import statement among its
top-level statements and the comments that follow it on its row, or, in a file without one, at
its first top-level statement that is not a comment (at its end when there is none). Nothing
that follows the slot starts before it. -/
def ImportSlot (src : Source) (root : Node) (at_ : Nat) : Prop :=
  match (root.namedChildren.filter (·.kind == .importStatement)).getLast? with
  | some last =>
    ∃ run rest, root.after last = run ++ rest ∧
      (∀ n ∈ run, n.isComment = true ∧ src.row n.start = src.row last.stop) ∧
      (∀ n ∈ rest.head?, ¬(n.isComment = true ∧ src.row n.start = src.row last.stop)) ∧
      at_ = ((last :: run).getLast (List.cons_ne_nil _ _)).stop ∧ ∀ n ∈ rest, at_ ≤ n.start
  | none =>
    ∃ comments rest, root.namedChildren = comments ++ rest ∧ (∀ n ∈ comments, n.isComment = true) ∧
      (∀ n ∈ rest.head?, n.isComment = false) ∧
      at_ = (rest.head?.map (·.start)).getD src.text.utf8ByteSize ∧ ∀ n ∈ rest, at_ ≤ n.start

theorem start_le_of_ordered_after {pre rest : List Node} {a : Node} (member : a ∈ pre)
    (ordered : (pre ++ rest).Pairwise fun c d => c.stop ≤ d.start) : ∀ n ∈ rest, a.stop ≤ n.start :=
  fun n later => (List.pairwise_append.mp ordered).2.2 a member n later

theorem importSlot_of_last {src : Source} {root last : Node} (nested : root.Nested)
    (isLast : (root.namedChildren.filter (·.kind == .importStatement)).getLast? = some last) :
    ImportSlot src root (trailingCommentEnd src root last) := by
  unfold ImportSlot
  rw [isLast]
  dsimp only
  have ordered : (last :: root.after last).Pairwise fun c d => c.stop ≤ d.start :=
    List.pairwise_cons.mpr ⟨fun d later => Node.stop_le_of_mem_after nested.ordered later,
      nested.ordered.sublist (Node.after_sublist root last)⟩
  have split := (List.takeWhile_append_dropWhile (l := root.after last)
    (p := fun n => n.isComment && src.row n.start == src.row last.stop)).symm
  rw [split, ← List.cons_append] at ordered
  refine ⟨_, _, split, fun n inRun => ?_, fun n atHead => ?_, trailingCommentEnd_eq_run src root last,
    fun n later => ?_⟩
  · simpa using List.mem_takeWhile_imp inRun
  · have stops := List.head?_dropWhile_not
      (fun n => n.isComment && src.row n.start == src.row last.stop) (root.after last)
    rw [Option.mem_def.mp atHead] at stops
    simpa using stops
  · rw [trailingCommentEnd_eq_run]
    exact start_le_of_ordered_after (List.getLast_mem _) ordered n later

theorem importSlot_of_no_imports {src : Source} {root : Node} (nested : root.Nested)
    (noImports : (root.namedChildren.filter (·.kind == .importStatement)).getLast? = none) :
    ImportSlot src root
      (((root.namedChildren.find? (!·.isComment)).map (·.start)).getD src.text.utf8ByteSize) := by
  unfold ImportSlot
  rw [noImports]
  dsimp only
  have found := List.find?_eq_head?_dropWhile_not (fun n : Node => !n.isComment) root.namedChildren
  simp only [Bool.not_not] at found
  rw [found]
  have ordered : root.namedChildren.Pairwise fun c d => c.stop ≤ d.start :=
    nested.ordered.sublist List.filter_sublist
  have split := (List.takeWhile_append_dropWhile (l := root.namedChildren)
    (p := fun n => n.isComment)).symm
  refine ⟨_, _, split, fun n inRun => List.mem_takeWhile_imp inRun, fun n atHead => ?_, rfl,
    fun n later => ?_⟩
  · have stops := List.head?_dropWhile_not (fun n : Node => n.isComment) root.namedChildren
    rw [Option.mem_def.mp atHead] at stops
    exact stops
  · have named : ∀ n ∈ root.namedChildren.dropWhile (·.isComment), n ∈ root.namedChildren :=
      fun n member => (List.dropWhile_sublist _).subset member
    rw [split] at ordered
    generalize List.dropWhile _ root.namedChildren = rest at later ordered named ⊢
    cases rest with
    | nil => cases later
    | cons r rs =>
      rw [List.head?_cons, Option.map_some, Option.getD_some]
      rcases List.mem_cons.mp later with rfl | beyond
      · exact le_refl _
      · have before := (List.pairwise_cons.mp (List.pairwise_append.mp ordered).2.1).1 n beyond
        exact (nested.child (List.mem_of_mem_filter (named r List.mem_cons_self))).2.2.le.trans before

/-- The edit that adds an import inserts the statement `import { name } from <module>;` as a line
of its own at the file's import slot. -/
theorem importEdit_slot {p : Parsed} {name module : String} {edit : TextEdit}
    (nested : p.root.Nested) (made : importEdit p name module = some edit) :
    let line := "import \x7b " ++ name ++ " \x7d from " ++ renderString module (detectQuote p) ++ ";"
    edit.start = edit.stop ∧ ImportSlot p.src p.root edit.start ∧
      (edit.text = detectNewline p.src.text ++ line ∨ edit.text = line ++ detectNewline p.src.text) := by
  intro line
  unfold importEdit at made
  dsimp only at made
  split at made
  · cases made
  · cases isLast : (p.root.namedChildren.filter (·.kind == .importStatement)).getLast? with
    | some last =>
      simp only [isLast] at made
      cases made
      exact ⟨rfl, importSlot_of_last nested isLast, .inl rfl⟩
    | none =>
      simp only [isLast] at made
      have slot : ImportSlot p.src p.root _ := importSlot_of_no_imports nested isLast
      cases first : p.root.namedChildren.find? (!·.isComment) with
      | some first =>
        simp only [first] at made slot
        cases made
        exact ⟨rfl, slot, .inr rfl⟩
      | none =>
        simp only [first] at made slot
        cases made
        exact ⟨rfl, slot, .inr rfl⟩

theorem mem_after_of_commaAfter {container last c : Node} (comma : commaAfter container last = some c) :
    c ∈ container.after last := by
  unfold commaAfter at comma
  split at comma
  · rename_i n found
    split at comma
    · cases comma
      exact List.mem_of_find?_eq_some found
    · cases comma
  · cases comma

theorem afterLastMember_inside {src : Source} {container last : Node} {style : ObjectStyle}
    {member : String} (nested : container.Nested) (isChild : last ∈ container.children) :
    (afterLastMember src container last style member).Inside container ∧
      last.stop ≤ (afterLastMember src container last style member).start := by
  obtain ⟨lastStart, lastStop, lastNested⟩ := nested.child isChild
  have lastLe := lastNested.le
  unfold afterLastMember
  dsimp only
  split
  · split
    next c comma =>
      have later := mem_after_of_commaAfter comma
      obtain ⟨-, commaStop, commaNested⟩ := nested.child (Node.mem_of_mem_after later)
      have follows := Node.stop_le_of_mem_after nested.ordered later
      have commaLe := commaNested.le
      simp only [TextEdit.Inside, TextEdit.insert]
      omega
    next =>
      simp only [TextEdit.Inside, TextEdit.insert]
      omega
  · have anchorChild : (commaAfter container last).getD last ∈ container.children := by
      cases comma : commaAfter container last with
      | none => exact isChild
      | some c => exact Node.mem_of_mem_after (mem_after_of_commaAfter comma)
    have anchorLe : trailingCommentEnd src container ((commaAfter container last).getD last) ≤
        container.stop := trailingCommentEnd_le nested anchorChild
    simp only [TextEdit.Inside, TextEdit.replace]
    omega

theorem insertion_inside {src : Source} {object : Node} {style : ObjectStyle} {key : String}
    {rest : List String} {value : PatchValue} (nested : object.Nested) :
    (insertion src object style key rest value).Inside object ∧
      ∀ m ∈ object.members, m.stop ≤ (insertion src object style key rest value).start := by
  have ordered : object.members.Pairwise fun a b => a.stop ≤ b.start := nested.ordered.filter _
  unfold insertion
  dsimp only
  split
  next last lastIs =>
    have lastMember : last ∈ object.members := List.mem_of_getLast? lastIs
    have isChild : last ∈ object.children := (List.mem_filter.mp lastMember).1
    have lastLe := (nested.child isChild).2.2.le
    exact ⟨(afterLastMember_inside nested isChild).1, fun m member =>
      le_trans (stop_le_of_getLast ordered lastIs lastLe member)
        (afterLastMember_inside nested isChild).2⟩
  next noLast =>
    have empty : object.members = [] := List.getLast?_eq_none_iff.mp noLast
    refine ⟨?_, by simp [empty]⟩
    have le := nested.le
    split
    · exact ⟨le_refl _, le_refl _⟩
    next nonblank =>
      have wide : object.start + 1 ≤ object.stop := by
        by_contra narrow
        rw [Source.bytes_of_le (by omega)] at nonblank
        exact nonblank rfl
      simp only [TextEdit.Inside, TextEdit.insert]
      omega

theorem appendStep_inside {p : Parsed} {array : Node} {quote : Char} {value : PatchValue}
    {ed : TextEdit} {o : PatchOutcome} (nested : array.Nested)
    (step : appendStep p array quote value = .edit ed o) : ed.Inside array := by
  unfold appendStep at step
  split at step
  · cases step
  · dsimp only at step
    split at step
    · cases step
    · split at step
      next last lastIs =>
        cases step
        exact (afterLastMember_inside nested
          (List.mem_filter.mp (List.mem_of_getLast? lastIs)).1).1
      next =>
        cases step
        exact ⟨le_refl _, le_refl _⟩

theorem findProperty_mem {src : Source} {object : Node} {key : String} {property : Property}
    (found : findProperty src object key = some property) :
    property.node ∈ object.members ∧ ∀ v, property.value = some v → v ∈ property.node.children := by
  unfold findProperty at found
  obtain ⟨m, member, made⟩ := List.mem_filterMap.mp (List.mem_of_getLast? found)
  split at made
  · split at made
    · split at made
      · cases made
        exact ⟨member, fun v valued => List.mem_of_find?_eq_some valued⟩
      · cases made
    · cases made
  · split at made
    · split at made
      · cases made
        exact ⟨member, fun v valued => by cases valued⟩
      · cases made
    · cases made

theorem leafStep_inside {p : Parsed} {property : Property} {style : ObjectStyle} {key : String}
    {value : PatchValue} {mode : PatchMode} {ed : TextEdit} {o : PatchOutcome}
    (nested : property.node.Nested)
    (valueChild : ∀ v, property.value = some v → v ∈ property.node.children)
    (step : leafStep p property style key value mode = .edit ed o) : ed.Inside property.node := by
  unfold leafStep at step
  split at step
  · split at step
    · cases step
    · cases step
    · cases step
      exact ⟨le_refl _, le_refl _⟩
  next existing found =>
    have child := valueChild existing found
    have existingNested := (nested.child child).2.2
    split at step
    · exact (appendStep_inside existingNested step).of_child nested child
    · split at step
      · cases step
      · split at step
        · cases step
        · split at step
          · cases step
          · cases step
            exact TextEdit.Inside.of_child ⟨le_refl _, le_refl _⟩ nested child
        · cases step
          exact TextEdit.Inside.of_child ⟨le_refl _, le_refl _⟩ nested child

theorem findProperty_nested {src : Source} {object : Node} {key : String} {property : Property}
    (nested : object.Nested) (found : findProperty src object key = some property) :
    property.node ∈ object.children ∧ property.node.Nested ∧
      ∀ v, property.value = some v → v ∈ property.node.children := by
  obtain ⟨member, valueChild⟩ := findProperty_mem found
  have isChild := (List.mem_filter.mp member).1
  exact ⟨isChild, (nested.child isChild).2.2, valueChild⟩

/-- What a walk plans for its first key: an insertion into the object when the key is new, the
leaf step of the member it names when it is the last key, and otherwise the walk of the rest of
the path inside that member's value. -/
theorem walk_cons_edit {value : PatchValue} {mode : PatchMode} {p : Parsed} {quote : Char}
    {key : String} {rest : List String} {object : Node} {ed : TextEdit} {o : PatchOutcome}
    (walked : plan.walk value mode p quote object (key :: rest) = .ok (.edit ed o)) :
    (findProperty p.src object key = none ∧
      ∃ v, ed = insertion p.src object (ObjectStyle.detect p object quote) key rest v) ∨
    ∃ property, findProperty p.src object key = some property ∧
      (leafStep p property (ObjectStyle.detect p object quote) key value mode = .edit ed o ∨
        ∃ inner, property.value = some inner ∧
          plan.walk value mode p quote inner rest = .ok (.edit ed o)) := by
  unfold plan.walk at walked
  dsimp only at walked
  split at walked
  next absent =>
    cases walked
    refine .inl ⟨absent, ?_⟩
    split
    · exact ⟨_, rfl⟩
    · exact ⟨_, rfl⟩
  next property found =>
    refine .inr ⟨property, found, ?_⟩
    split at walked
    · exact .inl (Except.ok.inj walked)
    · split at walked
      next inner valued =>
        split at walked
        · exact .inr ⟨inner, valued, walked⟩
        · cases walked
      next => cases walked

/-- Where the edit for a path falls, given that the walk of the rest of the path stays within
the value it enters: within the object, and there after all its members when the first key is
new, inside the member it names otherwise. -/
theorem walk_edit_cases_of_rest {value : PatchValue} {mode : PatchMode} {p : Parsed}
    {quote : Char} {key : String} {rest : List String} {object : Node} {ed : TextEdit}
    {o : PatchOutcome} (nested : object.Nested)
    (walked : plan.walk value mode p quote object (key :: rest) = .ok (.edit ed o))
    (restInside : ∀ inner : Node, inner.Nested →
      plan.walk value mode p quote inner rest = .ok (.edit ed o) → ed.Inside inner) :
    ed.Inside object ∧
      ((findProperty p.src object key = none ∧ ∀ m ∈ object.members, m.stop ≤ ed.start) ∨
        ∃ property, findProperty p.src object key = some property ∧ ed.Inside property.node) := by
  rcases walk_cons_edit walked with ⟨absent, v, rfl⟩ | ⟨property, found, step⟩
  · exact ⟨(insertion_inside nested).1, .inl ⟨absent, (insertion_inside nested).2⟩⟩
  obtain ⟨isChild, memberNested, valueChild⟩ := findProperty_nested nested found
  suffices inMember : ed.Inside property.node from
    ⟨inMember.of_child nested isChild, .inr ⟨property, found, inMember⟩⟩
  rcases step with leaf | ⟨inner, valued, walkedInner⟩
  · exact leafStep_inside memberNested valueChild leaf
  · have innerChild := valueChild inner valued
    exact (restInside inner (memberNested.child innerChild).2.2 walkedInner).of_child memberNested
      innerChild

/-- Where the edit for a path falls: within the object the walk starts from, and there after all
its members when the first key is new, inside the member it names otherwise. The induction
follows the walk, one nested object per key. -/
theorem walk_edit_cases {value : PatchValue} {mode : PatchMode} {p : Parsed} {quote : Char}
    {key : String} {rest : List String} {object : Node} {ed : TextEdit} {o : PatchOutcome}
    (nested : object.Nested)
    (walked : plan.walk value mode p quote object (key :: rest) = .ok (.edit ed o)) :
    ed.Inside object ∧
      ((findProperty p.src object key = none ∧ ∀ m ∈ object.members, m.stop ≤ ed.start) ∨
        ∃ property, findProperty p.src object key = some property ∧ ed.Inside property.node) := by
  induction rest generalizing key object with
  | nil =>
    exact walk_edit_cases_of_rest nested walked fun _ _ walkedInner => by cases walkedInner
  | cons key' rest ih =>
    exact walk_edit_cases_of_rest nested walked fun _ innerNested walkedInner =>
      (ih innerNested walkedInner).1

theorem disjoint_of_ordered {l : List Node} {a b : Node}
    (ordered : l.Pairwise fun c d => c.stop ≤ d.start) (memA : a ∈ l) (memB : b ∈ l) (ne : a ≠ b) :
    a.stop ≤ b.start ∨ b.stop ≤ a.start := by
  have either : l.Pairwise fun c d => c.stop ≤ d.start ∨ d.stop ≤ c.start :=
    ordered.imp fun h => Or.inl h
  have : Std.Symm fun c d : Node => c.stop ≤ d.start ∨ d.stop ≤ c.start := ⟨fun _ _ h => h.symm⟩
  exact either.forall memA memB ne

/-- The edit an entry plans against the current text lies in the object its locator finds
there, and misses every member of that object but the one the entry's first key names. -/
theorem plan_edit_stays_inside {e : Editor} {l : Locator} {object : Node} {key : String}
    {rest : List String} {value : PatchValue} {mode : PatchMode} {ed : TextEdit}
    {o : PatchOutcome} (located : locate e l = .ok object) (nested : object.Nested)
    (planned : plan e l (key :: rest) value mode = .ok (.edit ed o)) :
    ed.Inside object ∧ ∀ m ∈ object.members,
      (∀ property ∈ findProperty e.parsed.src object key, property.node ≠ m) →
        m.stop ≤ ed.start ∨ ed.stop ≤ m.start := by
  have walked : plan.walk value mode e.parsed (detectQuote e.parsed) object (key :: rest) =
      .ok (.edit ed o) := by
    simp only [plan, located] at planned
    exact planned
  obtain ⟨inside, cases⟩ := walk_edit_cases nested walked
  refine ⟨inside, fun m member other => ?_⟩
  rcases cases with ⟨-, after⟩ | ⟨property, found, inMember⟩
  · exact .inl (after m member)
  · have named := (findProperty_nested nested found).1
    have isChild := (List.mem_filter.mp member).1
    rcases disjoint_of_ordered nested.ordered isChild named (other property found).symm with
      before | beyond
    · exact .inl (before.trans inMember.1)
    · exact .inr (inMember.2.trans beyond)

end Monorepo.Codemod
