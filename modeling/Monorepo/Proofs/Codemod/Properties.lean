import Monorepo.Proofs.Codemod.Grammar

/-!
# Properties by position, and reading back what the planner wrote

`findProperty` takes the last member of an object found under a key. Here that member is given
its index among the object's children (`LastKeyed`), so that an edit at an index can be told
apart from the property a walk takes. The second half reads back the shapes of `Grammar`: a key
written bare or quoted reads as itself, a string or a boolean written for a value holds it, a
call written for an array entry is that entry; and the layouts the planner reads off a parsed file
are sane.
-/

namespace List

variable {α β : Type} {f : α → Option β}

theorem exists_of_getLast?_filterMap {b : β} :
    ∀ {l : List α}, (l.filterMap f).getLast? = some b →
      ∃ (i : Nat) (a : α), l[i]? = some a ∧ f a = some b ∧
        ∀ (j : Nat) (a' : α), i < j → l[j]? = some a' → f a' = none
  | [], h => by simp at h
  | x :: l, h => by
    cases hx : f x with
    | none =>
      rw [filterMap_cons, hx] at h
      obtain ⟨i, a, ha, hb, later⟩ := exists_of_getLast?_filterMap h
      refine ⟨i + 1, a, by simpa using ha, hb, fun j a' lt hj => ?_⟩
      obtain ⟨j, rfl⟩ := Nat.exists_eq_add_of_lt lt
      exact later (i + j + 1) a' (by omega) (by simpa [Nat.add_right_comm] using hj)
    | some c =>
      rw [filterMap_cons, hx, getLast?_cons] at h
      cases rest : (l.filterMap f).getLast? with
      | some b' =>
        rw [rest, Option.getD_some, Option.some.injEq] at h
        subst h
        obtain ⟨i, a, ha, hb, later⟩ := exists_of_getLast?_filterMap rest
        refine ⟨i + 1, a, by simpa using ha, hb, fun j a' lt hj => ?_⟩
        obtain ⟨j, rfl⟩ := Nat.exists_eq_add_of_lt lt
        exact later (i + j + 1) a' (by omega) (by simpa [Nat.add_right_comm] using hj)
      | none =>
        rw [rest, Option.getD_none, Option.some.injEq] at h
        subst h
        have none : ∀ a ∈ l, f a = none :=
          filterMap_eq_nil_iff.mp (getLast?_eq_none_iff.mp rest)
        refine ⟨0, x, rfl, hx, fun j a' lt hj => ?_⟩
        obtain ⟨j, rfl⟩ := Nat.exists_eq_add_of_lt lt
        exact none a' (mem_of_getElem? (by simpa using hj))

theorem getLast?_filterMap_of {l : List α} {i : Nat} {a : α} {b : β} (ha : l[i]? = some a)
    (hb : f a = some b) (later : ∀ (j : Nat) (a' : α), i < j → l[j]? = some a' → f a' = none) :
    (l.filterMap f).getLast? = some b := by
  have split : l = l.take i ++ a :: l.drop (i + 1) := by
    obtain ⟨bound, rfl⟩ := getElem?_eq_some_iff.mp ha
    rw [← drop_eq_getElem_cons bound, take_append_drop]
  have rest : (l.drop (i + 1)).filterMap f = [] := by
    refine filterMap_eq_nil_iff.mpr fun a' member => ?_
    obtain ⟨j, hj⟩ := mem_iff_getElem?.mp member
    rw [getElem?_drop] at hj
    exact later (i + 1 + j) a' (by omega) hj
  rw [split, filterMap_append, filterMap_cons, hb, rest, getLast?_append]
  simp

end List

namespace Monorepo.Codemod

open Monorepo.Script Monorepo.Json Node

/-- The key a member of an object literal is found under: a pair's key, a shorthand's name. -/
def keyOf (src : Source) (m : Node) : Option String :=
  if m.kind == .pair then (m.child? .key).bind (propertyKey src)
  else if m.kind == .shorthandPropertyIdentifier then some (m.text src)
  else none

/-- The value a member found as a property holds: a pair's value, none for a shorthand. -/
def valueOf (m : Node) : Option Node :=
  if m.kind == .pair then m.child? .value else none

theorem findProperty_eq (src : Source) (object : Node) (key : String) :
    findProperty src object key = (object.members.filterMap fun m =>
      if keyOf src m = some key then some ⟨m, valueOf m⟩ else none).getLast? := by
  unfold findProperty
  congr 2
  funext m
  unfold keyOf valueOf
  by_cases pair : (m.kind == .pair) = true
  · simp only [pair, if_true]
    cases (m.child? .key).bind (propertyKey src) with
    | none => simp
    | some name => by_cases same : name = key <;> simp [same]
  · simp only [pair, Bool.false_eq_true, if_false]
    split
    · by_cases same : m.text src = key <;> simp [same]
    · simp

/-- `m`, the child at `i`, is the last member of `object` found under `key`. -/
def LastKeyed (src : Source) (object : Node) (key : String) (i : Nat) (m : Node) : Prop :=
  object.children[i]? = some m ∧ (m.isNamed && !m.isComment) = true ∧ keyOf src m = some key ∧
    ∀ j c, i < j → object.children[j]? = some c → (c.isNamed && !c.isComment) = true →
      keyOf src c ≠ some key

variable {src : Source} {object : Node} {key : String}

theorem findProperty_filterMap (src : Source) (object : Node) (key : String) :
    findProperty src object key = (object.children.filterMap fun c =>
      if (c.isNamed && !c.isComment) = true then
        (if keyOf src c = some key then some ⟨c, valueOf c⟩ else none)
      else none).getLast? := by
  rw [findProperty_eq, members, List.filterMap_filter]

theorem findProperty_lastKeyed {property : Property}
    (found : findProperty src object key = some property) :
    ∃ i, LastKeyed src object key i property.node ∧ property.value = valueOf property.node := by
  rw [findProperty_filterMap] at found
  obtain ⟨i, m, hm, kept, later⟩ := List.exists_of_getLast?_filterMap found
  by_cases member : (m.isNamed && !m.isComment) = true
  · by_cases keyed : keyOf src m = some key
    · simp only [member, keyed, if_true, Option.some.injEq] at kept
      subst kept
      refine ⟨i, ⟨hm, member, keyed, fun j c lt hc isMember => ?_⟩, rfl⟩
      have := later j c lt hc
      simp only [isMember, if_true] at this
      intro keyedC
      simp [keyedC] at this
    · simp [member, keyed] at kept
  · simp [member] at kept

theorem LastKeyed.findProperty {i : Nat} {m : Node} (last : LastKeyed src object key i m) :
    findProperty src object key = some ⟨m, valueOf m⟩ := by
  obtain ⟨hm, member, keyed, later⟩ := last
  rw [findProperty_filterMap]
  refine List.getLast?_filterMap_of hm (by simp [member, keyed]) fun j c lt hc => ?_
  by_cases isMember : (c.isNamed && !c.isComment) = true
  · simp [isMember, later j c lt hc isMember]
  · simp [isMember]

theorem LastKeyed.unique {i i' : Nat} {m m' : Node} (last : LastKeyed src object key i m)
    (last' : LastKeyed src object key i' m') : i = i' ∧ m = m' := by
  have same : i = i' := by
    rcases Nat.lt_trichotomy i i' with lt | eq | gt
    · exact absurd last'.2.2.1 (last.2.2.2 i' m' lt last'.1 last'.2.1)
    · exact eq
    · exact absurd last.2.2.1 (last'.2.2.2 i m gt last.1 last.2.1)
  subst same
  exact ⟨rfl, Option.some.inj (last.1.symm.trans last'.1)⟩

theorem findProperty_eq_none :
    findProperty src object key = none ↔ ∀ m ∈ object.members, keyOf src m ≠ some key := by
  rw [findProperty_eq, List.getLast?_eq_none_iff, List.filterMap_eq_nil_iff]
  refine forall₂_congr fun m _ => ?_
  by_cases keyed : keyOf src m = some key <;> simp [keyed]

theorem keyOf_same {s s' : Source} {m m' : Node} (same : Node.Same s s' m m') :
    keyOf s m = keyOf s' m' := by
  unfold keyOf
  rw [same.kind_eq, same.text_eq]
  split
  · exact (same.child?_rel .key).bind_eq fun _ _ k => propertyKey_same k
  · rfl

theorem valueOf_same {s s' : Source} {m m' : Node} (same : Node.Same s s' m m') :
    Option.Rel (Node.Same s s') (valueOf m) (valueOf m') := by
  unfold valueOf
  rw [same.kind_eq]
  split
  · exact same.child?_rel .value
  · exact .none

variable {s : Source} {quote : Char}

theorem KeyFits.propertyKey (quoted : quote = '\'' ∨ quote = '"') {k : Node}
    (fits : KeyFits s quote key k) : Codemod.propertyKey s k = some key := by
  rcases fits with ⟨kind, text⟩ | ⟨kind, text⟩
  · simp [Codemod.propertyKey, kind, text]
  · simp [Codemod.propertyKey, kind, text, unescape_stripQuotes_renderString key quoted]

theorem PairFits.keyOf (quoted : quote = '\'' ∨ quote = '"') {value : Shape} {m : Node}
    (fits : PairFits s quote key value m) : Codemod.keyOf s m = some key := by
  obtain ⟨pair, ⟨k, hk, keyFits⟩, -⟩ := fits
  simp [Codemod.keyOf, pair, hk, keyFits.propertyKey quoted]

theorem PairFits.valueOf {value : Shape} {m : Node} (fits : PairFits s quote key value m) :
    ∃ v, Codemod.valueOf m = some v ∧ Fits s quote value v := by
  obtain ⟨pair, -, v, hv, fitsV⟩ := fits
  exact ⟨v, by simp [Codemod.valueOf, pair, hv], fitsV⟩

theorem Fits.holdsAt_string (quoted : quote = '\'' ∨ quote = '"') {str : String} {n : Node}
    (fits : Fits s quote (.string str) n) :
    (PatchValue.literal (.string str)).holdsAt s n = true := by
  obtain ⟨kind, text⟩ := fits
  obtain ⟨k, f, a, b, cs⟩ := n
  simp only at kind
  subst kind
  have read : literalValue s ⟨.string, f, a, b, cs⟩ = some (.string str) := by
    simp only [literalValue]
    rw [text, unescape_stripQuotes_renderString str quoted]
  simp [PatchValue.holdsAt, read, BEq.beq, Value.beq]

theorem Fits.holdsAt_bool {b : Bool} {n : Node} (fits : Fits s quote (.bool b) n) :
    (PatchValue.literal (.bool b)).holdsAt s n = true := by
  obtain ⟨k, f, a, e, cs⟩ := n
  simp only [Fits] at fits
  subst fits
  cases b <;> simp [PatchValue.holdsAt, literalValue, BEq.beq, Value.beq]

theorem Fits.sameEntry_call {callee : String} {arguments : List Value} {n : Node}
    (fits : Fits s quote (.call callee) n) :
    (PatchValue.call callee arguments).sameEntry s n = true := by
  obtain ⟨kind, f, hf, text⟩ := fits
  simp [PatchValue.sameEntry, PatchValue.isCallTo, kind, hf, text]

theorem Indentation.append {a b : String} (left : Indentation a) (right : Indentation b) :
    Indentation (a ++ b) := by
  intro c member
  rw [String.toList_append, List.mem_append] at member
  exact member.elim (left c) (right c)

theorem indentation_defaultIndentUnit : Indentation defaultIndentUnit := by
  simp [Indentation, defaultIndentUnit]

theorem indentation_lineIndent (src : Source) (byte : Nat) : Indentation (src.lineIndent byte) := by
  intro c member
  simp only [Source.lineIndent, String.toList_ofList] at member
  simpa using List.mem_takeWhile_imp member

theorem ObjectStyle.Sane.nested {style : ObjectStyle} (sane : style.Sane) : style.nested.Sane where
  quote := sane.quote
  newline := sane.newline
  objectIndent := sane.propertyIndent
  propertyIndent := by
    refine sane.propertyIndent.append ?_
    unfold ObjectStyle.indentUnit
    split
    · intro c member
      rw [String.toList_ofList] at member
      exact sane.propertyIndent c (List.mem_of_mem_drop member)
    · exact indentation_defaultIndentUnit

theorem ObjectStyle.Sane.foldl_nested {style : ObjectStyle} (sane : style.Sane)
    (keys : List String) : (keys.foldl (fun s _ => s.nested) style).Sane := by
  induction keys generalizing style with
  | nil => exact sane
  | cons _ rest ih => exact ih sane.nested

theorem ObjectStyle.detect_sane (p : Parsed) (object : Node) {quote : Char}
    (quoted : quote = '\'' ∨ quote = '"') : (ObjectStyle.detect p object quote).Sane where
  quote := quoted
  newline := by
    show detectNewline p.src.text = "\n" ∨ detectNewline p.src.text = "\r\n"
    unfold detectNewline
    cases holdsCrlf p.src.text.toList <;> simp
  objectIndent := indentation_lineIndent p.src object.start
  propertyIndent := by
    unfold ObjectStyle.detect
    dsimp only
    split
    · split
      · exact indentation_lineIndent _ _
      · exact (indentation_lineIndent _ _).append indentation_defaultIndentUnit
    · exact (indentation_lineIndent _ _).append indentation_defaultIndentUnit

mutual

theorem firstString_at : ∀ {n m : Node}, n.firstString = some m →
    ∃ a, n.subtreeAt a = some m ∧ m.kind = .string
  | ⟨k, f, a, b, cs⟩, m, found => by
    unfold firstString at found
    split at found
    · rename_i isString
      cases found
      exact ⟨[], rfl, by simpa using isString⟩
    · obtain ⟨i, c, child, a, at_, kind⟩ := firstStringAmong_at found
      exact ⟨i :: a, by simp [child, at_], kind⟩

theorem firstStringAmong_at : ∀ {cs : List Node} {m : Node}, firstStringAmong cs = some m →
    ∃ (i : Nat) (c : Node), cs[i]? = some c ∧ ∃ a, c.subtreeAt a = some m ∧ m.kind = .string
  | [], m, found => by simp [firstStringAmong] at found
  | n :: rest, m, found => by
    unfold firstStringAmong at found
    split at found
    · rename_i hit
      cases found
      split at hit
      · obtain ⟨a, at_, kind⟩ := firstString_at hit
        exact ⟨0, n, rfl, a, at_, kind⟩
      · cases hit
    · obtain ⟨i, c, child, a, at_, kind⟩ := firstStringAmong_at found
      exact ⟨i + 1, c, by simpa using child, a, at_, kind⟩

end

theorem GrammarLaws.detectQuote_quoted {parse : ScriptParser} (laws : GrammarLaws parse)
    {language : Language} {text origin : String} {p : Parsed}
    (parsed : parse language text origin = .ok p) :
    detectQuote p = '\'' ∨ detectQuote p = '"' := by
  unfold detectQuote
  split
  · rename_i n found
    obtain ⟨a, at_, kind⟩ := firstString_at found
    exact laws.string_quote parsed a n at_ kind
  · exact .inl rfl

end Monorepo.Codemod
