import Mathlib
import Monorepo.Proofs.Codemod.Properties
import Monorepo.Proofs.Json.Members

/-!
# Literals read back as they were written

The renderer writes JSON data as a literal (`renderValue`), and the reader takes a literal node
back to data (`literalValue`). Between the two stands the grammar. `readsAs` checks what the
grammar made of rendered text, node by node: a leaf holding the text written for it, an array of
one node per item, an object of one pair per member, its key written by `renderKey`. On such a
tree the reader gives the value back (`literalValue_of_readsAs`) whenever the value `readsBack`:
its integers fit 64 signed bits, it holds no float, and no object holds a key twice. A key comes
back through `propertyKey` whether it was written bare or quoted (`propertyKey_of_keyReadsAs`).
Both checks compute, so the grammar's own trees can be checked against them.
-/

namespace Monorepo.Codemod

open Monorepo.Script Monorepo.Json

/-- Whether `k` is the key node the grammar makes of `renderKey key style`: a property identifier
when the key is written bare, a string literal otherwise. -/
def keyReadsAs (src : Source) (style : ObjectStyle) (key : String) (k : Node) : Bool :=
  k.text src == renderKey key style &&
    k.kind == if !style.quotedKeys && isPlainKey key then .propertyIdentifier else .string

mutual

/-- Whether `n` is the node the grammar makes of `renderValue style v`; floats are left out. -/
def readsAs (src : Source) (style : ObjectStyle) : Value → Node → Bool
  | .null, n => n.kind == .nullLiteral
  | .bool b, n => n.kind == if b then .trueLiteral else .falseLiteral
  | .number (.natural k), n => n.kind == .number && n.text src == toString k
  | .number (.negative i), n => n.kind == .unaryExpression &&
      (n.child? .operator).any (·.text src == "-") &&
      (n.child? .argument).any fun arg => arg.kind == .number && arg.text src == toString i.natAbs
  | .number (.float _), _ => false
  | .string s, n => n.kind == .string && n.text src == renderString s style.quote
  | .array items, n => n.kind == .array && itemsReadAs src style items n.members
  | .object members, n => n.kind == .object && membersReadAs src style members n.members

/-- Whether the elements of an array are one node per item. -/
def itemsReadAs (src : Source) (style : ObjectStyle) : List Value → List Node → Bool
  | [], [] => true
  | v :: vs, n :: ns => readsAs src style v n && itemsReadAs src style vs ns
  | _, _ => false

/-- Whether the pairs of an object are one per member: the key in the object's style, the value
one level deeper. -/
def membersReadAs (src : Source) (style : ObjectStyle) : List (String × Value) → List Node → Bool
  | [], [] => true
  | (key, v) :: rest, m :: ms =>
    m.kind == .pair && (m.child? .key).any (keyReadsAs src style key) &&
      (m.child? .value).any (readsAs src style.nested v) && membersReadAs src style rest ms
  | _, _ => false

end

mutual

/-- Whether a value reads back as the renderer writes it: every integer fits 64 signed bits,
there is no float, and no object holds a key twice. -/
def readsBack : Value → Bool
  | .number (.natural n) => decide (n < 2 ^ 63)
  | .number (.negative i) => decide (-2 ^ 63 ≤ i ∧ i < 0)
  | .number (.float _) => false
  | .array items => itemsReadBack items
  | .object members => decide (Members.keys members).Nodup && membersReadBack members
  | _ => true

def itemsReadBack : List Value → Bool
  | [] => true
  | v :: vs => readsBack v && itemsReadBack vs

def membersReadBack : List (String × Value) → Bool
  | [] => true
  | (_, v) :: rest => readsBack v && membersReadBack rest

end

variable {src : Source}

theorem propertyKey_of_keyReadsAs {style : ObjectStyle}
    (quoted : style.quote = '\'' ∨ style.quote = '"') {key : String} {k : Node}
    (read : keyReadsAs src style key k = true) : propertyKey src k = some key := by
  refine KeyFits.propertyKey quoted ?_
  unfold keyReadsAs renderKey at read
  by_cases bare : (!style.quotedKeys && isPlainKey key) = true
  · rw [if_pos bare, if_pos bare, Bool.and_eq_true, beq_iff_eq, beq_iff_eq] at read
    exact .inl ⟨read.2, read.1⟩
  · rw [if_neg bare, if_neg bare, Bool.and_eq_true, beq_iff_eq, beq_iff_eq] at read
    exact .inr ⟨read.2, read.1⟩

theorem literalItems_members (cs : List Node) :
    literalItems src cs = literalItems src (cs.filter fun c => c.isNamed && !c.isComment) := by
  induction cs with
  | nil => rfl
  | cons c cs ih =>
    rw [literalItems, List.filter_cons]
    cases named : c.isNamed <;> cases comment : c.isComment <;> simp [named, comment, ih, literalItems]

theorem literalMembers_members (cs : List Node) (acc : Members) :
    literalMembers src cs acc =
      literalMembers src (cs.filter fun c => c.isNamed && !c.isComment) acc := by
  induction cs generalizing acc with
  | nil => rfl
  | cons c cs ih =>
    rw [literalMembers, List.filter_cons]
    cases named : c.isNamed <;> cases comment : c.isComment <;>
      simp [named, comment, ih, literalMembers]

theorem pairValueAmong_eq (cs : List Node) :
    pairValueAmong src cs = (cs.find? (·.field == some .value)).bind (literalValue src) := by
  induction cs with
  | nil => rfl
  | cons c cs ih =>
    rw [pairValueAmong, List.find?_cons]
    cases c.field == some .value <;> simp [ih]

theorem pairValue_eq (m : Node) : pairValue src m = (m.child? .value).bind (literalValue src) := by
  obtain ⟨k, f, s, e, cs⟩ := m
  rw [pairValue, pairValueAmong_eq]
  rfl

mutual

/-- On a tree the grammar made of rendered text, the reader gives back every value that reads
back: by structural recursion on the value, items and members included, the style going one
level deeper at each object. -/
theorem literalValue_of_readsAs : ∀ {style : ObjectStyle} (v : Value) (n : Node),
    readsAs src style v n = true → (style.quote = '\'' ∨ style.quote = '"') → readsBack v = true →
      literalValue src n = some v
  | _, .null, ⟨k, f, s, e, cs⟩, read, _, _ => by
    simp only [readsAs, beq_iff_eq] at read
    subst read
    simp [literalValue]
  | _, .bool b, ⟨k, f, s, e, cs⟩, read, _, _ => by
    simp only [readsAs, beq_iff_eq] at read
    subst read
    cases b <;> simp [literalValue]
  | _, .number (.natural i), ⟨k, f, s, e, cs⟩, read, _, back => by
    simp only [readsAs, Bool.and_eq_true, beq_iff_eq] at read
    obtain ⟨kind, text⟩ := read
    subst kind
    simp only [readsBack, decide_eq_true_eq] at back
    simp only [literalValue, Option.map_eq_some_iff]
    exact ⟨_, text ▸ (parseNumber_render_natural i).mpr back, rfl⟩
  | _, .number (.negative i), ⟨k, f, s, e, cs⟩, read, _, back => by
    simp only [readsAs, Bool.and_eq_true, beq_iff_eq, Option.any_eq_true] at read
    obtain ⟨⟨kind, op, opAt, opText⟩, arg, argAt, argKind, argText⟩ := read
    subst kind
    simp only [readsBack, decide_eq_true_eq] at back
    have read := parseNumber_render_negative back.1 back.2
    simp only [Number.render] at read
    simpa [literalValue, opAt, argAt, opText, argKind, argText] using read
  | _, .number (.float _), _, read, _, _ => by simp [readsAs] at read
  | style, .string str, ⟨k, f, s, e, cs⟩, read, quoted, _ => by
    simp only [readsAs, Bool.and_eq_true, beq_iff_eq] at read
    obtain ⟨kind, text⟩ := read
    subst kind
    simp only [literalValue]
    rw [show Node.text ⟨.string, f, s, e, cs⟩ src = renderString str style.quote from text,
      unescape_stripQuotes_renderString str quoted]
  | _, .array items, ⟨k, f, s, e, cs⟩, read, quoted, back => by
    simp only [readsAs, Bool.and_eq_true, beq_iff_eq] at read
    obtain ⟨kind, itemsRead⟩ := read
    subst kind
    simp only [readsBack] at back
    simp only [literalValue]
    rw [literalItems_members, literalItems_of_readsAs items
      (cs.filter fun c => c.isNamed && !c.isComment) itemsRead quoted back
      fun c member => by simpa [Node.members] using (List.mem_filter.mp member).2]
    rfl
  | _, .object members, ⟨k, f, s, e, cs⟩, read, quoted, back => by
    simp only [readsAs, Bool.and_eq_true, beq_iff_eq] at read
    obtain ⟨kind, membersRead⟩ := read
    subst kind
    simp only [readsBack, Bool.and_eq_true, decide_eq_true_eq] at back
    simp only [literalValue]
    rw [literalMembers_members, literalMembers_of_readsAs members
      (cs.filter fun c => c.isNamed && !c.isComment) membersRead quoted back.2 back.1
      (fun c member => by simpa [Node.members] using (List.mem_filter.mp member).2) []
      (by simp [Members.keys])]
    rfl

theorem literalItems_of_readsAs : ∀ {style : ObjectStyle} (vs : List Value) (ns : List Node),
    itemsReadAs src style vs ns = true → (style.quote = '\'' ∨ style.quote = '"') →
      itemsReadBack vs = true → (∀ c ∈ ns, c.isNamed = true ∧ c.isComment = false) →
        literalItems src ns = some vs
  | _, [], [], _, _, _, _ => rfl
  | _, v :: vs, n :: ns, read, quoted, back, shown => by
    simp only [itemsReadAs, Bool.and_eq_true] at read
    simp only [itemsReadBack, Bool.and_eq_true] at back
    obtain ⟨named, notComment⟩ := shown n List.mem_cons_self
    rw [literalItems, named, notComment, literalValue_of_readsAs v n read.1 quoted back.1,
      literalItems_of_readsAs vs ns read.2 quoted back.2
        (fun c member => shown c (List.mem_cons_of_mem _ member))]
    rfl
  | _, [], _ :: _, read, _, _, _ => by simp [itemsReadAs] at read
  | _, _ :: _, [], read, _, _, _ => by simp [itemsReadAs] at read

theorem literalMembers_of_readsAs : ∀ {style : ObjectStyle} (ms : List (String × Value))
    (ns : List Node), membersReadAs src style ms ns = true →
      (style.quote = '\'' ∨ style.quote = '"') → membersReadBack ms = true →
      (Members.keys ms).Nodup → (∀ c ∈ ns, c.isNamed = true ∧ c.isComment = false) →
      ∀ acc : Members, (∀ k ∈ Members.keys ms, k ∉ acc.keys) →
        literalMembers src ns acc = some (acc ++ ms)
  | _, [], [], _, _, _, _, _, acc, _ => by simp [literalMembers]
  | _, (key, v) :: rest, m :: ns, read, quoted, back, unique, shown, acc, fresh => by
    simp only [membersReadAs, Bool.and_eq_true, beq_iff_eq, Option.any_eq_true] at read
    obtain ⟨⟨⟨pair, k, keyAt, keyRead⟩, x, valueAt, valueRead⟩, tail⟩ := read
    simp only [membersReadBack, Bool.and_eq_true] at back
    obtain ⟨named, notComment⟩ := shown m List.mem_cons_self
    obtain ⟨later, restUnique⟩ := List.nodup_cons.mp unique
    have keyOf : pairKey src m = some key := by
      rw [pairKey, keyAt]
      exact propertyKey_of_keyReadsAs quoted keyRead
    have valueOf : pairValue src m = some v := by
      rw [pairValue_eq, valueAt]
      exact literalValue_of_readsAs v x valueRead quoted back.1
    have absent : key ∉ acc.keys := fresh key List.mem_cons_self
    have restFresh : ∀ k ∈ Members.keys rest, k ∉ (acc ++ [(key, v)]).keys :=
      Members.fresh_after_append later fun k member => fresh k (List.mem_cons_of_mem _ member)
    rw [literalMembers, named, notComment]
    simp only [Bool.not_true, Bool.or_false, Bool.false_eq_true, if_false, pair, bne_self_eq_false,
      keyOf, valueOf, Members.insert_of_not_mem absent]
    rw [literalMembers_of_readsAs rest ns tail quoted back.2 restUnique
      (fun c member => shown c (List.mem_cons_of_mem _ member)) _ restFresh]
    simp
  | _, [], _ :: _, read, _, _, _, _, _, _ => by simp [membersReadAs] at read
  | _, _ :: _, [], read, _, _, _, _, _, _ => by simp [membersReadAs] at read

end

/-- Rendering and reading back are inverse wherever the numbers allow. A key written by
`renderKey` reads back through `propertyKey`; a value whose integers fit 64 signed bits, with no
float and no key twice, reads back through `literalValue` from the tree the grammar makes of its
rendering, arrays and objects at any depth; at the leaves, a string unescapes to itself, a
negative integer from `-2 ^ 63` on reads back as itself, and a natural number reads back as
itself exactly when it is below `2 ^ 63`. -/
theorem rendered_literals_read_back {src : Source} {style : ObjectStyle}
    (quoted : style.quote = '\'' ∨ style.quote = '"') :
    (∀ key k, keyReadsAs src style key k = true → propertyKey src k = some key) ∧
    (∀ v n, readsAs src style v n = true → readsBack v = true → literalValue src n = some v) ∧
    (∀ s, unescape (stripQuotes (renderString s style.quote)).toList = s) ∧
    (∀ i : Int, -2 ^ 63 ≤ i → i < 0 →
      parseNumber (Number.render (.negative i)) = some (.negative i)) ∧
    (∀ n : Nat, parseNumber (Number.render (.natural n)) = some (.natural n) ↔ n < 2 ^ 63) :=
  ⟨fun _ _ read => propertyKey_of_keyReadsAs quoted read,
    fun v n read back => literalValue_of_readsAs v n read quoted back,
    fun s => unescape_stripQuotes_renderString s quoted,
    fun _ atLeast below => parseNumber_render_negative atLeast below,
    parseNumber_render_natural⟩

set_option maxRecDepth 100000 in
/-- The grammar's own tree of a rendered object, holding an array with a negative number and an
object under a quoted key, passes the check and reads back as the value rendered. -/
theorem rendered_literals_read_back_through_grammar :
    let style : ObjectStyle := ⟨'\'', "", "  ", false, false, false, "\n"⟩
    let v : Value := .object [("a", .array [.number (.natural 1), .number (.negative (-2))]),
      ("b c", .object [("d", .string "x")])]
    renderValue style v = "\x7b a: [1, -2], 'b c': \x7b d: 'x' \x7d \x7d" ∧
      ∃ p n, Script.parse .typescript "x=\x7b a: [1, -2], 'b c': \x7b d: 'x' \x7d \x7d" "v" = .ok p ∧
        p.root.subtreeAt [0, 0, 2] = some n ∧ readsAs p.src style v n = true ∧
        readsBack v = true ∧ literalValue p.src n = some v := by
  intro style v
  have rendered : renderValue style v = "\x7b a: [1, -2], 'b c': \x7b d: 'x' \x7d \x7d" := by cbv
  have checked : ((Script.parse .typescript "x=\x7b a: [1, -2], 'b c': \x7b d: 'x' \x7d \x7d"
      "v").toOption.any fun p => (p.root.subtreeAt [0, 0, 2]).any (readsAs p.src style v)) = true := by
    cbv
  have back : readsBack v = true := by decide
  obtain ⟨p, parsed, found⟩ := (Option.any_eq_true _ _).mp checked
  obtain ⟨n, at_, read⟩ := (Option.any_eq_true _ _).mp found
  have parsedOk : Script.parse .typescript "x=\x7b a: [1, -2], 'b c': \x7b d: 'x' \x7d \x7d" "v" =
      .ok p := by
    revert parsed
    cases Script.parse .typescript "x=\x7b a: [1, -2], 'b c': \x7b d: 'x' \x7d \x7d" "v" <;>
      simp [Except.toOption]
  exact ⟨rendered, p, n, parsedOk, at_, read, back,
    (rendered_literals_read_back (.inl rfl)).2.1 v n read back⟩

/-- The greatest 64-bit natural number, whose digits the renderer writes as they are, is not
read back as that number. -/
theorem largest_natural_not_read_back :
    parseNumber (Number.render (.natural (2 ^ 64 - 1))) ≠ some (.natural (2 ^ 64 - 1)) :=
  fun read => absurd (parseNumber_natural_lt read) (by decide)

end Monorepo.Codemod
