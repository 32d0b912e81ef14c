import Mathlib
import Monorepo.Proofs.Json.Pointer
import Monorepo.Proofs.Json.Readers

/-!
# Every string of a document with its pointer

`Value.strings` lists the strings of a document in document order, the items of an array by
index and the members of an object in order, each with the pointer that leads to it. A pointer
writes each reference token with `~` as `~0` and `/` as `~1`, and reading it decodes `~1`, then
`~0`, so every token, whatever it holds, reads back as itself. In a document whose objects hold
each key once, the listing therefore visits each string leaf exactly once, its pointer finds that
string, and an edit at the pointer changes that string and no other.
Main statement: `Value.strings_visit_each_leaf`.
-/

namespace Monorepo.Json

/-- The pointer that spells a list of reference tokens. -/
def pointerOf (tokens : List String) : String :=
  String.join (tokens.map fun t => "/" ++ escapeToken t)

/-- The characters a character is written as in a reference token. -/
def tokenChar (c : Char) : List Char :=
  if c = '~' then ['~', '0'] else if c = '/' then ['~', '1'] else [c]

/-- A reference token once its `~1` have been decoded to `/`. -/
def halfTokenChar (c : Char) : List Char :=
  if c = '~' then ['~', '0'] else [c]

theorem replacePair_cons_of_ne {a b r x : Char} (l : List Char) (other : x ≠ a) :
    replacePair a b r (x :: l) = x :: replacePair a b r l := by
  cases l <;> simp [replacePair, other]

theorem replacePair_tokenChar (c : Char) (rest : List Char) :
    replacePair '~' '1' '/' (tokenChar c ++ rest) = halfTokenChar c ++ replacePair '~' '1' '/' rest := by
  unfold tokenChar halfTokenChar
  split_ifs with tilde slash
  · simp only [List.cons_append, List.nil_append]
    rw [replacePair, if_neg (by decide), replacePair_cons_of_ne _ (by decide)]
  · subst slash
    simp [replacePair]
  · simp only [List.cons_append, List.nil_append]
    exact replacePair_cons_of_ne _ tilde

theorem replacePair_halfTokenChar (c : Char) (rest : List Char) :
    replacePair '~' '0' '~' (halfTokenChar c ++ rest) = c :: replacePair '~' '0' '~' rest := by
  unfold halfTokenChar
  split_ifs with tilde
  · subst tilde
    simp [replacePair]
  · exact replacePair_cons_of_ne _ tilde

theorem toList_escapeToken (t : String) : (escapeToken t).toList = t.toList.flatMap tokenChar := by
  rw [escapeToken, String.toList_ofList]
  rfl

theorem unescapeToken_escapeToken (t : String) : unescapeToken (escapeToken t) = t := by
  have halfDecoded : ∀ l : List Char,
      replacePair '~' '1' '/' (l.flatMap tokenChar) = l.flatMap halfTokenChar := by
    intro l
    induction l with
    | nil => rfl
    | cons c l ih => rw [List.flatMap_cons, replacePair_tokenChar, ih, List.flatMap_cons]
  have decoded : ∀ l : List Char, replacePair '~' '0' '~' (l.flatMap halfTokenChar) = l := by
    intro l
    induction l with
    | nil => rfl
    | cons c l ih => rw [List.flatMap_cons, replacePair_halfTokenChar, ih]
  rw [unescapeToken, toList_escapeToken, halfDecoded, decoded, String.ofList_toList]

theorem slash_not_mem_escapeToken (t : String) : '/' ∉ (escapeToken t).toList := by
  simp only [escapeToken, String.toList_ofList, List.mem_flatMap, not_exists, not_and]
  intro c _
  split_ifs with tilde slash
  · decide
  · decide
  · simpa using Ne.symm slash

theorem escapeToken_of_plain {t : String} (plain : PlainToken t) : escapeToken t = t := by
  have kept : ∀ c ∈ t.toList, tokenChar c = [c] := by
    intro c member
    have notTilde : c ≠ '~' := fun same => plain.2 (same ▸ member)
    have notSlash : c ≠ '/' := fun same => plain.1 (same ▸ member)
    simp [tokenChar, notTilde, notSlash]
  apply String.toList_inj.mp
  rw [toList_escapeToken, List.flatMap_congr kept (l := t.toList), List.flatMap_singleton']

@[simp] theorem pointerOf_nil : pointerOf [] = "" := rfl

theorem pointerOf_cons (t : String) (tokens : List String) :
    pointerOf (t :: tokens) = "/" ++ escapeToken t ++ pointerOf tokens := by
  simp [pointerOf, String.append_assoc]

theorem pointerTokens_pointerOf : ∀ tokens, pointerTokens (pointerOf tokens) = some tokens
  | [] => rfl
  | [t] => by
    have cut : (escapeToken t).toList.splitOn '/' = [(escapeToken t).toList] :=
      List.splitOn_eq_singleton (slash_not_mem_escapeToken t)
    simp [pointerTokens, pointerOf_cons, cut, unescapeToken_escapeToken]
  | t :: u :: more => by
    obtain ⟨rest, spelled⟩ : ∃ rest, (pointerOf (u :: more)).toList = '/' :: rest :=
      ⟨(escapeToken u ++ pointerOf more).toList, by rw [pointerOf_cons]; simp⟩
    have later := pointerTokens_pointerOf (u :: more)
    simp only [pointerTokens, spelled, Option.some.injEq] at later
    have cut : ((escapeToken t).toList ++ '/' :: rest).splitOn '/' =
        (escapeToken t).toList :: rest.splitOn '/' :=
      List.splitOn_append_cons_self_of_not_mem (slash_not_mem_escapeToken t) _
    rw [pointerOf_cons t (u :: more)]
    simp [pointerTokens, spelled, cut, unescapeToken_escapeToken, later]

theorem pointerOf_inj {a b : List String} : pointerOf a = pointerOf b ↔ a = b := by
  constructor
  · intro same
    have read := pointerTokens_pointerOf a
    rw [same, pointerTokens_pointerOf, Option.some.injEq] at read
    exact read.symm
  · rintro rfl
    rfl

theorem isDigit_bounds {c : Char} (digit : c.isDigit = true) : 48 ≤ c.toNat ∧ c.toNat ≤ 57 := by
  simpa [Char.isDigit, UInt32.le_iff_toNat_le] using digit

theorem digitChar_of_isDigit {c : Char} (digit : c.isDigit = true) :
    Nat.digitChar (c.toNat - 48) = c := by
  have bounds := isDigit_bounds digit
  have spelled : ∀ d < 10, Nat.digitChar d = Char.ofNat (48 + d) := by decide
  rw [spelled _ (by omega), show 48 + (c.toNat - 48) = c.toNat by omega, Char.ofNat_toNat]

theorem toDigits_ofDigitChars {cs : List Char} (digits : ∀ c ∈ cs, c.isDigit = true)
    (nonempty : cs ≠ []) (lead : cs.length = 1 ∨ cs.head? ≠ some '0') :
    Nat.toDigits 10 (Nat.ofDigitChars 10 cs 0) = cs := by
  induction cs using List.reverseRecOn with
  | nil => exact absurd rfl nonempty
  | append_singleton init c ih =>
    have lastDigit : c.isDigit = true := digits c (by simp)
    have small : c.toNat - 48 < 10 := by
      have := isDigit_bounds lastDigit
      omega
    have value : Nat.ofDigitChars 10 (init ++ [c]) 0 =
        10 * Nat.ofDigitChars 10 init 0 + (c.toNat - 48) := by
      simp [Nat.ofDigitChars_append, Nat.ofDigitChars_cons]
    by_cases empty : init = []
    · subst empty
      rw [value, Nat.ofDigitChars_nil, Nat.mul_zero, Nat.zero_add, Nat.toDigits_of_lt_base small,
        digitChar_of_isDigit lastDigit, List.nil_append]
    obtain ⟨h, rest, rfl⟩ := List.exists_cons_of_ne_nil empty
    have leading : h ≠ '0' := by
      rcases lead with single | notZero
      · simp at single
      · simpa using notZero
    have positive : 0 < Nat.ofDigitChars 10 (h :: rest) 0 := by
      have bounds := isDigit_bounds (digits h (by simp))
      have notZero : h.toNat ≠ 48 := fun same => leading (Char.toNat_inj.mp (by simpa using same))
      rw [Nat.ofDigitChars_cons, Nat.ofDigitChars_eq_ofDigitChars_zero]
      have : 0 < 10 ^ rest.length := Nat.pow_pos (by decide)
      have : 0 < h.toNat - 48 := by omega
      positivity
    have before := ih (fun d member => digits d (List.mem_append_left _ member)) empty
      (.inr (by simpa using leading))
    rw [value, ← Nat.toDigits_append_toDigits (by decide) positive small, before,
      Nat.toDigits_of_lt_base small, digitChar_of_isDigit lastDigit]

theorem eq_toString_of_indexToken {t : String} {i : Nat} (read : indexToken t = some i) :
    t = toString i := by
  unfold indexToken at read
  split at read
  · cases read
  · cases read
  · rename_i nonempty notLead
    split at read
    · rename_i digits
      cases read
      have lead : t.toList.length = 1 ∨ t.toList.head? ≠ some '0' := by
        match spelled : t.toList with
        | [] => exact absurd spelled nonempty
        | [_] => exact .inl rfl
        | c :: d :: more =>
          refine .inr fun zero => notLead d more ?_
          simp only [List.head?_cons, Option.some.injEq] at zero
          rw [spelled, zero]
      apply String.toList_inj.mp
      rw [Nat.toString_eq_repr, Nat.toList_repr,
        toDigits_ofDigitChars (List.all_eq_true.mp digits) nonempty lead]
    · cases read

namespace Value

/-- Document order of two places in a value, each given by the reference tokens that lead to it:
where the two ways part, the first goes to an earlier item of an array or to a member that comes
earlier in an object. -/
inductive Precedes : Value → List String → List String → Prop
  | item {xs : List Value} {i j : Nat} (a b : List String) :
      i < j → Precedes (.array xs) (toString i :: a) (toString j :: b)
  | member {ms : Members} {k l : String} (a b : List String) :
      (∃ before after, ms.keys = before ++ k :: after ∧ l ∈ after) →
      Precedes (.object ms) (k :: a) (l :: b)
  | within {v w : Value} {t : String} {a b : List String} :
      v.atTokens [t] = some w → Precedes w a b → Precedes v (t :: a) (t :: b)

mutual

/-- The string leaves of a value, each with the reference tokens that lead to it, in document
order. -/
def leaves : Value → List (List String × String)
  | .string s => [([], s)]
  | .array xs => itemLeaves 0 xs
  | .object ms => memberLeaves ms
  | _ => []

/-- The leaves of array items, counting indices from `i`. -/
def itemLeaves (i : Nat) : List Value → List (List String × String)
  | [] => []
  | x :: xs => (x.leaves.map fun e => (toString i :: e.1, e.2)) ++ itemLeaves (i + 1) xs

/-- The leaves of object members. -/
def memberLeaves : List (String × Value) → List (List String × String)
  | [] => []
  | (k, x) :: ms => (x.leaves.map fun e => (k :: e.1, e.2)) ++ memberLeaves ms

end

mutual

theorem strings_eq_leaves : (v : Value) → (pointer : String) →
    v.strings pointer = v.leaves.map fun e => (pointer ++ pointerOf e.1, e.2)
  | .string s, pointer => by simp [strings, leaves]
  | .array xs, pointer => by
    simp only [strings, leaves]
    exact stringsOfItems_eq_leaves xs pointer 0
  | .object ms, pointer => by
    simp only [strings, leaves]
    exact stringsOfMembers_eq_leaves ms pointer
  | .null, _ => rfl
  | .bool _, _ => rfl
  | .number _, _ => rfl

theorem stringsOfItems_eq_leaves : (xs : List Value) → (pointer : String) → (i : Nat) →
    stringsOfItems pointer i xs = (itemLeaves i xs).map fun e => (pointer ++ pointerOf e.1, e.2)
  | [], _, _ => rfl
  | x :: xs, pointer, i => by
    simp only [stringsOfItems, itemLeaves, strings_eq_leaves x, stringsOfItems_eq_leaves xs pointer,
      List.map_append, List.map_map]
    congr 1
    refine List.map_congr_left fun e _ => ?_
    have digits : escapeToken (toString i) = toString i := escapeToken_of_plain (plainToken_toString i)
    simp only [Function.comp, pointerOf_cons, digits, String.append_assoc]

theorem stringsOfMembers_eq_leaves : (ms : List (String × Value)) → (pointer : String) →
    stringsOfMembers pointer ms = (memberLeaves ms).map fun e => (pointer ++ pointerOf e.1, e.2)
  | [], _ => rfl
  | (k, x) :: ms, pointer => by
    simp only [stringsOfMembers, memberLeaves, strings_eq_leaves x, stringsOfMembers_eq_leaves ms,
      List.map_append, List.map_map]
    congr 1
    refine List.map_congr_left fun e _ => ?_
    simp [pointerOf_cons, String.append_assoc]

end

theorem mem_itemLeaves {i : Nat} {xs : List Value} {e : List String × String} :
    e ∈ itemLeaves i xs ↔
      ∃ j x ts, xs[j]? = some x ∧ (ts, e.2) ∈ x.leaves ∧ e.1 = toString (i + j) :: ts := by
  induction xs generalizing i with
  | nil => simp [itemLeaves]
  | cons x xs ih =>
    simp only [itemLeaves, List.mem_append, List.mem_map, ih]
    constructor
    · rintro (⟨d, member, rfl⟩ | ⟨j, y, ts, found, member, spelled⟩)
      · exact ⟨0, x, d.1, rfl, member, rfl⟩
      · exact ⟨j + 1, y, ts, found, member, by rw [spelled, Nat.add_right_comm, Nat.add_assoc]⟩
    · rintro ⟨j, y, ts, found, member, spelled⟩
      cases j with
      | zero =>
        cases found
        exact .inl ⟨(ts, e.2), member, Prod.ext (by simpa using spelled.symm) rfl⟩
      | succ j =>
        exact .inr ⟨j, y, ts, found, member, by rw [spelled, Nat.add_right_comm, Nat.add_assoc]⟩

theorem mem_memberLeaves {ms : Members} {e : List String × String} :
    e ∈ memberLeaves ms ↔ ∃ k x ts, (k, x) ∈ ms ∧ (ts, e.2) ∈ x.leaves ∧ e.1 = k :: ts := by
  induction ms with
  | nil => simp [memberLeaves]
  | cons m ms ih =>
    obtain ⟨k, x⟩ := m
    simp only [memberLeaves, List.mem_append, List.mem_map, ih, List.mem_cons]
    constructor
    · rintro (⟨d, member, rfl⟩ | ⟨k', y, ts, found, member, spelled⟩)
      · exact ⟨k, x, d.1, .inl rfl, member, rfl⟩
      · exact ⟨k', y, ts, .inr found, member, spelled⟩
    · rintro ⟨k', y, ts, found | found, member, spelled⟩
      · cases found
        exact .inl ⟨(ts, e.2), member, Prod.ext spelled.symm rfl⟩
      · exact .inr ⟨k', y, ts, found, member, spelled⟩

theorem atTokens_of_mem_leaves {v : Value} (keysOnce : v.KeysOnce) :
    ∀ e ∈ v.leaves, v.atTokens e.1 = some (.string e.2) := by
  induction keysOnce with
  | string s => simp [leaves, atTokens]
  | @array xs _ ih =>
    intro e member
    obtain ⟨j, x, ts, found, below, spelled⟩ := mem_itemLeaves.mp member
    have inside := ih x (List.mem_of_getElem? found) (ts, e.2) below
    rw [spelled, atTokens_cons, Nat.zero_add, atTokens_index, found]
    exact inside
  | @object ms nodup _ ih =>
    intro e member
    obtain ⟨k, x, ts, found, below, spelled⟩ := mem_memberLeaves.mp member
    have inside := ih (k, x) found (ts, e.2) below
    rw [spelled, atTokens_cons]
    simp only [atTokens, Members.get?_eq_some_of_mem nodup found, Option.bind_some]
    exact inside
  | null | bool | number => simp [leaves]

theorem mem_leaves_of_atTokens : ∀ {tokens : List String} {v : Value} {s : String},
    v.atTokens tokens = some (.string s) → (tokens, s) ∈ v.leaves
  | [], v, s, found => by
    cases found
    simp [leaves]
  | t :: rest, .object ms, s, found => by
    obtain ⟨w, under, deeper⟩ := Option.bind_eq_some_iff.mp found
    exact mem_memberLeaves.mpr ⟨t, w, rest, Members.mem_of_get?_eq_some under,
      mem_leaves_of_atTokens deeper, rfl⟩
  | t :: rest, .array xs, s, found => by
    obtain ⟨i, index, item⟩ := Option.bind_eq_some_iff.mp found
    obtain ⟨w, atIndex, deeper⟩ := Option.bind_eq_some_iff.mp item
    exact mem_itemLeaves.mpr ⟨i, w, rest, atIndex, mem_leaves_of_atTokens deeper,
      by rw [Nat.zero_add, ← eq_toString_of_indexToken index]⟩
  | _ :: _, .string _, _, found | _ :: _, .null, _, found | _ :: _, .bool _, _, found
  | _ :: _, .number _, _, found => by cases found

theorem toString_inj {i j : Nat} (same : toString i = toString j) : i = j := by
  have read := indexToken_toString i
  rw [same, indexToken_toString j, Option.some.injEq] at read
  exact read.symm

theorem itemLeaves_precede {xs : List Value}
    (each : ∀ x ∈ xs, (x.leaves.map (·.1)).Pairwise x.Precedes) :
    ∀ (pre ys : List Value), xs = pre ++ ys →
      ((itemLeaves pre.length ys).map (·.1)).Pairwise (Value.array xs).Precedes
  | _, [], _ => by simp [itemLeaves]
  | pre, y :: ys, split => by
    have found : (Value.array xs).atTokens [toString pre.length] = some y := by
      rw [atTokens_index, split, List.getElem?_append_right (Nat.le_refl _), Nat.sub_self]
      rfl
    have later := itemLeaves_precede each (pre ++ [y]) ys (by simp [split])
    rw [List.length_append, List.length_singleton] at later
    simp only [itemLeaves, List.map_append, List.map_map, List.pairwise_append]
    refine ⟨?_, later, ?_⟩
    · refine List.pairwise_map.mpr ((List.pairwise_map.mp (each y (by simp [split]))).imp ?_)
      intro a b precedes
      exact .within found precedes
    · intro a inItem b inLater
      obtain ⟨d, -, rfl⟩ := List.mem_map.mp inItem
      obtain ⟨e, member, rfl⟩ := List.mem_map.mp inLater
      obtain ⟨j, -, ts, -, -, spelled⟩ := mem_itemLeaves.mp member
      rw [spelled]
      exact .item _ _ (by omega)

theorem memberLeaves_precede {ms : Members} (nodup : ms.keys.Nodup)
    (each : ∀ m ∈ ms, (m.2.leaves.map (·.1)).Pairwise m.2.Precedes) :
    ∀ (pre ys : Members), ms = pre ++ ys →
      ((memberLeaves ys).map (·.1)).Pairwise (Value.object ms).Precedes
  | _, [], _ => by simp [memberLeaves]
  | pre, (k, y) :: ys, split => by
    have member : (k, y) ∈ ms := by simp [split]
    have found : (Value.object ms).atTokens [k] = some y := by
      simp [atTokens, Members.get?_eq_some_of_mem nodup member]
    have later := memberLeaves_precede nodup each (pre ++ [(k, y)]) ys (by simp [split])
    simp only [memberLeaves, List.map_append, List.map_map, List.pairwise_append]
    refine ⟨?_, later, ?_⟩
    · refine List.pairwise_map.mpr ((List.pairwise_map.mp (each (k, y) member)).imp ?_)
      intro a b precedes
      exact .within found precedes
    · intro a inMember b inLater
      obtain ⟨d, -, rfl⟩ := List.mem_map.mp inMember
      obtain ⟨e, inRest, rfl⟩ := List.mem_map.mp inLater
      obtain ⟨l, z, ts, found, -, spelled⟩ := mem_memberLeaves.mp inRest
      rw [spelled]
      exact .member _ _ ⟨Members.keys pre, Members.keys ys, by simp [split, Members.keys],
        Members.mem_keys_of_mem found⟩

theorem leaves_precede {v : Value} (keysOnce : v.KeysOnce) :
    (v.leaves.map (·.1)).Pairwise v.Precedes := by
  induction keysOnce with
  | string s => simp [leaves]
  | @array xs _ ih => simpa [leaves] using itemLeaves_precede ih [] xs rfl
  | @object ms nodup _ ih => simpa [leaves] using memberLeaves_precede nodup ih [] ms rfl
  | null | bool | number => simp [leaves]

theorem KeysOnce.atTokens {w : Value} : ∀ {tokens : List String} {v : Value}, v.KeysOnce →
    v.atTokens tokens = some w → w.KeysOnce
  | [], _, keysOnce, found => by
    cases found
    exact keysOnce
  | t :: rest, .object ms, .object _ each, found => by
    obtain ⟨u, under, deeper⟩ := Option.bind_eq_some_iff.mp found
    exact KeysOnce.atTokens (each (t, u) (Members.mem_of_get?_eq_some under)) deeper
  | t :: rest, .array xs, .array each, found => by
    obtain ⟨i, -, item⟩ := Option.bind_eq_some_iff.mp found
    obtain ⟨u, atIndex, deeper⟩ := Option.bind_eq_some_iff.mp item
    exact KeysOnce.atTokens (each u (List.mem_of_getElem? atIndex)) deeper
  | _ :: _, .string _, _, found | _ :: _, .null, _, found | _ :: _, .bool _, _, found
  | _ :: _, .number _, _, found => by cases found

theorem Precedes.ne {v : Value} {a b : List String} (precedes : v.Precedes a b)
    (keysOnce : v.KeysOnce) : a ≠ b := by
  induction precedes with
  | item a b earlier =>
    intro same
    have indices := toString_inj (List.cons.inj same).1
    omega
  | member a b split =>
    rename_i ms k l
    intro same
    obtain ⟨before, after, keys, later⟩ := split
    cases (List.cons.inj same).1
    cases keysOnce with
    | object nodup _ =>
      rw [keys] at nodup
      exact (List.nodup_cons.mp (List.nodup_append.mp nodup).2.1).1 later
  | within found _ ih =>
    intro same
    exact ih (keysOnce.atTokens found) (List.cons.inj same).2

/-- A leaf, with its string replaced by `w` when it stands at `tokens`. -/
def setLeaf (tokens : List String) (w : String) (e : List String × String) : List String × String :=
  if e.1 = tokens then (e.1, w) else e

theorem setLeaf_cons (t : String) (tokens : List String) (w : String) (e : List String × String) :
    setLeaf (t :: tokens) w (t :: e.1, e.2) = (t :: (setLeaf tokens w e).1, (setLeaf tokens w e).2) := by
  by_cases here : e.1 = tokens <;> simp [setLeaf, here]

theorem setLeaf_of_ne {t u : String} {tokens : List String} {w : String} {e : List String × String}
    (other : e.1.head? = some u) (different : u ≠ t) : setLeaf (t :: tokens) w e = e := by
  unfold setLeaf
  rw [if_neg]
  rintro same
  rw [same] at other
  exact different (Option.some.inj other).symm

theorem updateTokens_item (f : Value → Value) (i : Nat) (rest : List String) (xs : List Value) :
    updateTokens f (toString i :: rest) (.array xs) = .array (xs.modify i (updateTokens f rest)) := by
  simp only [updateTokens, indexToken_toString]
  congr 1
  refine List.ext_getElem (by simp) fun j _ _ => ?_
  simp only [List.getElem_map, List.getElem_zipIdx, List.getElem_modify, beq_iff_eq]
  split_ifs <;> first | rfl | omega

theorem updateTokens_member (f : Value → Value) (k : String) (rest : List String) (ms : Members) :
    updateTokens f (k :: rest) (.object ms) =
      .object (ms.map fun m => if m.1 = k then (m.1, updateTokens f rest m.2) else m) := by
  simp only [updateTokens]
  congr 1
  refine List.map_congr_left fun m _ => ?_
  obtain ⟨k', v⟩ := m
  by_cases same : k' = k <;> simp [same]

theorem itemLeaves_modify {g : Value → Value} {tokens : List String} {w : String} :
    ∀ {n j : Nat} {ys : List Value},
      (∀ y, ys[j]? = some y → (g y).leaves = y.leaves.map (setLeaf tokens w)) →
      itemLeaves n (ys.modify j g) = (itemLeaves n ys).map (setLeaf (toString (n + j) :: tokens) w)
  | _, _, [], _ => by simp [itemLeaves]
  | n, 0, y :: ys, edited => by
    have later : ∀ e ∈ itemLeaves (n + 1) ys, setLeaf (toString (n + 0) :: tokens) w e = e := by
      intro e member
      obtain ⟨j, -, ts, -, -, spelled⟩ := mem_itemLeaves.mp member
      exact setLeaf_of_ne (u := toString (n + 1 + j)) (by rw [spelled]; rfl) fun same => by
        have := toString_inj same
        omega
    rw [List.modify_zero_cons, itemLeaves, itemLeaves, edited y rfl, List.map_append,
      List.map_congr_left later, List.map_id', List.map_map, List.map_map]
    congr 1
    refine List.map_congr_left fun e _ => ?_
    simp only [Function.comp, Nat.add_zero, setLeaf_cons]
  | n, j + 1, y :: ys, edited => by
    have first : ∀ e ∈ y.leaves.map (fun e => (toString n :: e.1, e.2)),
        setLeaf (toString (n + (j + 1)) :: tokens) w e = e := by
      intro e member
      obtain ⟨d, -, rfl⟩ := List.mem_map.mp member
      exact setLeaf_of_ne (u := toString n) (by simp) fun same => by
        have := toString_inj same
        omega
    rw [List.modify_succ_cons, itemLeaves, itemLeaves, List.map_append,
      List.map_congr_left first, List.map_id',
      itemLeaves_modify (n := n + 1) (j := j) fun y' found => edited y' (by simpa using found),
      show n + 1 + j = n + (j + 1) by omega]

theorem memberLeaves_edit {g : Value → Value} {k : String} {x : Value} {tokens : List String}
    {w : String} (edited : (g x).leaves = x.leaves.map (setLeaf tokens w)) :
    ∀ {ms : Members}, ms.keys.Nodup → (k, x) ∈ ms →
      memberLeaves (ms.map fun m => if m.1 = k then (m.1, g m.2) else m) =
        (memberLeaves ms).map (setLeaf (k :: tokens) w)
  | [], _, member => by cases member
  | (k', y) :: ms, nodup, member => by
    simp only [Members.keys, List.map_cons, List.nodup_cons] at nodup
    have others : ∀ {l : String} {z : Value}, l ≠ k →
        ∀ e ∈ z.leaves.map (fun e => (l :: e.1, e.2)), setLeaf (k :: tokens) w e = e := by
      intro l z other e inMember
      obtain ⟨d, -, rfl⟩ := List.mem_map.mp inMember
      exact setLeaf_of_ne (u := l) rfl other
    by_cases same : k' = k
    · subst same
      have : y = x := by
        rcases List.mem_cons.mp member with here | later
        · exact (Prod.mk.inj here).2.symm
        · exact absurd (Members.mem_keys_of_mem later) nodup.1
      subst this
      have untouched : ∀ m ∈ ms, (if m.1 = k' then (m.1, g m.2) else m) = m := by
        intro m inRest
        have other : m.1 ≠ k' := fun key =>
          nodup.1 (key ▸ Members.mem_keys_of_mem (k := m.1) (v := m.2) inRest)
        rw [if_neg other]
      have laterLeaves : ∀ e ∈ memberLeaves ms, setLeaf (k' :: tokens) w e = e := by
        intro e inRest
        obtain ⟨l, z, ts, found, -, spelled⟩ := mem_memberLeaves.mp inRest
        exact setLeaf_of_ne (u := l) (by rw [spelled]; rfl) fun key =>
          nodup.1 (key ▸ Members.mem_keys_of_mem found)
      rw [List.map_cons, if_pos rfl, List.map_congr_left untouched, List.map_id', memberLeaves,
        memberLeaves, edited, List.map_append, List.map_congr_left laterLeaves, List.map_id',
        List.map_map, List.map_map]
      congr 1
      refine List.map_congr_left fun e _ => ?_
      simp only [Function.comp, setLeaf_cons]
    · have inRest : (k, x) ∈ ms := by
        rcases List.mem_cons.mp member with here | later
        · exact absurd (Prod.mk.inj here).1.symm same
        · exact later
      rw [List.map_cons, if_neg same, memberLeaves, memberLeaves, List.map_append,
        List.map_congr_left (others same), List.map_id', memberLeaves_edit edited nodup.2 inRest]

theorem leaves_updateTokens {v : Value} (keysOnce : v.KeysOnce) :
    ∀ e ∈ v.leaves, ∀ w, (updateTokens (fun _ => .string w) e.1 v).leaves = v.leaves.map (setLeaf e.1 w) := by
  induction keysOnce with
  | string s =>
    intro e member w
    simp only [leaves, List.mem_singleton] at member
    subst member
    simp [updateTokens, leaves, setLeaf]
  | @array xs _ ih =>
    intro e member w
    obtain ⟨j, x, ts, found, below, spelled⟩ := mem_itemLeaves.mp member
    rw [Nat.zero_add] at spelled
    have edited := ih x (List.mem_of_getElem? found) (ts, e.2) below w
    rw [spelled, updateTokens_item]
    simp only [leaves]
    rw [itemLeaves_modify fun y item => by rw [found] at item; cases item; exact edited, Nat.zero_add]
  | @object ms nodup _ ih =>
    intro e member w
    obtain ⟨k, x, ts, found, below, spelled⟩ := mem_memberLeaves.mp member
    have edited := ih (k, x) found (ts, e.2) below w
    rw [spelled, updateTokens_member]
    simp only [leaves]
    exact memberLeaves_edit edited nodup found
  | null | bool | number => simp [leaves]

theorem strings_eq_pointerOf (v : Value) :
    v.strings "" = v.leaves.map fun e => (pointerOf e.1, e.2) := by
  simp [strings_eq_leaves]

/-- Listing the strings of a document whose objects hold each key once visits every string leaf
exactly once and in document order. The pointer of each string finds it, and writing a string at
that pointer changes that string and no other, whatever the keys on the way hold. -/
theorem strings_visit_each_leaf {v : Value} (keysOnce : v.KeysOnce) :
    (∀ tokens s, v.atTokens tokens = some (.string s) →
      ∃ p, (p, s) ∈ v.strings "" ∧ pointerTokens p = some tokens) ∧
    ((v.strings "").map (·.1)).Nodup ∧
    ((v.strings "").map (·.1)).Pairwise (fun p q =>
      ∃ a b, pointerTokens p = some a ∧ pointerTokens q = some b ∧ v.Precedes a b) ∧
    ∀ p s, (p, s) ∈ v.strings "" → v.pointer? p = some (.string s) ∧
      ∃ tokens, pointerTokens p = some tokens ∧ ∀ w,
        (updateTokens (fun _ => .string w) tokens v).strings "" =
          (v.strings "").map fun e => if e.1 = p then (p, w) else e := by
  have ordered : ((v.strings "").map (·.1)).Pairwise (fun p q =>
      ∃ a b, pointerTokens p = some a ∧ pointerTokens q = some b ∧ v.Precedes a b) := by
    rw [strings_eq_pointerOf, List.map_map]
    refine List.pairwise_map.mpr ((List.pairwise_map.mp (leaves_precede keysOnce)).imp ?_)
    intro d e precedes
    exact ⟨d.1, e.1, pointerTokens_pointerOf _, pointerTokens_pointerOf _, precedes⟩
  refine ⟨fun tokens s found => ?_, ordered.imp ?_, ordered, fun p s listed => ?_⟩
  · refine ⟨pointerOf tokens, ?_, pointerTokens_pointerOf tokens⟩
    rw [strings_eq_pointerOf]
    exact List.mem_map.mpr ⟨_, mem_leaves_of_atTokens found, rfl⟩
  · rintro p q ⟨a, b, readP, readQ, precedes⟩ rfl
    rw [readP, Option.some.injEq] at readQ
    exact precedes.ne keysOnce readQ
  · rw [strings_eq_pointerOf] at listed
    obtain ⟨e, member, spelled⟩ := List.mem_map.mp listed
    obtain ⟨rfl, rfl⟩ := Prod.mk.inj spelled
    refine ⟨by simp [pointer?, pointerTokens_pointerOf, atTokens_of_mem_leaves keysOnce e member],
      e.1, pointerTokens_pointerOf e.1, fun w => ?_⟩
    rw [strings_eq_pointerOf, leaves_updateTokens keysOnce e member w, strings_eq_pointerOf,
      List.map_map, List.map_map]
    refine List.map_congr_left fun d _ => ?_
    by_cases same : d.1 = e.1
    · simp [setLeaf, same]
    · simp [setLeaf, same, pointerOf_inj]

/-- The document of the pointer test, with a key holding `~` beside the one holding `/`: the
pointers the listing gives find both strings. -/
theorem strings_visit_each_leaf_of_escaped_keys :
    let v : Value := .object [("paths", .object [("@demo/ui", .array [.string "libs/ui/src/index.ts"])]),
      ("a~b", .string "x")]
    v.KeysOnce ∧ v.strings "" = [("/paths/@demo~1ui/0", "libs/ui/src/index.ts"), ("/a~0b", "x")] ∧
      v.pointer? "/paths/@demo~1ui/0" = some (.string "libs/ui/src/index.ts") ∧
      v.pointer? "/a~0b" = some (.string "x") := by
  intro v
  have keysOnce : v.KeysOnce := by
    refine .object (by decide) fun m member => ?_
    simp only [List.mem_cons, List.not_mem_nil, or_false] at member
    rcases member with rfl | rfl
    · refine .object (by decide) fun m member => ?_
      simp only [List.mem_cons, List.not_mem_nil, or_false] at member
      subst member
      exact .array fun x member => by
        simp only [List.mem_cons, List.not_mem_nil, or_false] at member
        subst member
        exact .string _
    · exact .string _
  have listed : v.strings "" = [("/paths/@demo~1ui/0", "libs/ui/src/index.ts"), ("/a~0b", "x")] := by
    decide
  have visits := strings_visit_each_leaf keysOnce
  exact ⟨keysOnce, listed, (visits.2.2.2 _ _ (by simp [listed])).1,
    (visits.2.2.2 _ _ (by simp [listed])).1⟩

end Value

end Monorepo.Json
