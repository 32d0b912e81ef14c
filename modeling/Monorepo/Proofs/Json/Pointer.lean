import Mathlib
import Monorepo.Proofs.Json.Members

/-!
# Pointers into JSON documents

A reference token with neither `/` nor `~` in it stands in a pointer as it is, so a pointer that
joins such tokens with `/` reads back as them, and the decimal text of a number reads back as
that index. An edit at a pointer below one key of an object leaves what lies under every other
key as it was; an edit of one item of an array is `List.set`.
-/

namespace Monorepo.Json

/-- A reference token that a pointer writes as it stands. -/
def PlainToken (token : String) : Prop := '/' ∉ token.toList ∧ '~' ∉ token.toList

/-- A pointer whose tokens, if it reads as any, start with `key`: what is edited there lies below
that key. -/
def PointsBelow (key pointer : String) : Prop :=
  ∀ tokens, pointerTokens pointer = some tokens → ∃ rest, tokens = key :: rest

theorem replacePair_of_not_mem {a b r : Char} {l : List Char} (absent : a ∉ l) :
    replacePair a b r l = l := by
  fun_induction replacePair a b r l with
  | case1 x y rest matched _ => simp [matched.1] at absent
  | case2 x y rest _ ih => rw [ih fun member => absent (List.mem_cons_of_mem x member)]
  | case3 => rfl

theorem unescapeToken_of_plain {token : String} (plain : '~' ∉ token.toList) :
    unescapeToken token = token := by
  rw [unescapeToken, replacePair_of_not_mem plain, replacePair_of_not_mem plain,
    String.ofList_toList]

theorem pointerTokens_single {token : String} (plain : PlainToken token) :
    pointerTokens ("/" ++ token) = some [token] := by
  have split : token.toList.splitOn '/' = [token.toList] := List.splitOn_eq_singleton plain.1
  simp [pointerTokens, split, unescapeToken_of_plain plain.2]

theorem pointerTokens_cons {token more : String} (plain : PlainToken token) :
    pointerTokens ("/" ++ token ++ "/" ++ more) = (pointerTokens ("/" ++ more)).map (token :: ·) := by
  have split : (token.toList ++ '/' :: more.toList).splitOn '/' =
      token.toList :: more.toList.splitOn '/' :=
    List.splitOn_append_cons_self_of_not_mem plain.1 _
  simp [pointerTokens, split, unescapeToken_of_plain plain.2]

theorem pointsBelow_single {key : String} (plain : PlainToken key) : PointsBelow key ("/" ++ key) := by
  intro tokens read
  rw [pointerTokens_single plain, Option.some.injEq] at read
  exact ⟨[], read.symm⟩

theorem pointsBelow_cons {key more : String} (plain : PlainToken key) :
    PointsBelow key ("/" ++ key ++ "/" ++ more) := by
  intro tokens read
  rw [pointerTokens_cons plain, Option.map_eq_some_iff] at read
  obtain ⟨rest, -, rfl⟩ := read
  exact ⟨rest, rfl⟩

theorem toDigits_head_ne_zero {n : Nat} (positive : 0 < n) :
    (Nat.toDigits 10 n).head? ≠ some '0' := by
  induction n using Nat.strong_induction_on with
  | _ n ih =>
    by_cases small : n < 10
    · rw [Nat.toDigits_of_lt_base small]
      have digit : ∀ m < 10, 0 < m → Nat.digitChar m ≠ '0' := by decide
      simpa using digit n small positive
    · rw [Nat.toDigits_of_base_le (by decide) (by omega)]
      obtain ⟨c, rest, spelled⟩ :=
        List.exists_cons_of_ne_nil (Nat.toDigits_ne_nil (b := 10) (n := n / 10))
      have lead := ih (n / 10) (by omega) (by omega)
      rw [spelled] at lead ⊢
      simpa using lead

theorem plainToken_toString (i : Nat) : PlainToken (toString i) := by
  have digits : ∀ c ∈ (toString i).toList, c.isDigit = true := fun c member =>
    Nat.isDigit_of_mem_toDigits (b := 10) (by decide) (by decide)
      (by simpa [Nat.toList_repr] using member)
  exact ⟨fun member => absurd (digits '/' member) (by decide),
    fun member => absurd (digits '~' member) (by decide)⟩

theorem indexToken_toString (i : Nat) : indexToken (toString i) = some i := by
  have spelled : (toString i).toList = Nat.toDigits 10 i := by simp [Nat.toList_repr]
  unfold indexToken
  rw [spelled]
  split
  · rename_i empty
    exact absurd empty Nat.toDigits_ne_nil
  · rename_i c rest lead
    rcases Nat.eq_zero_or_pos i with zero | positive
    · subst zero
      simp [Nat.toDigits_zero] at lead
    · exact absurd (by simp [lead]) (toDigits_head_ne_zero positive)
  · have digits : (Nat.toDigits 10 i).all Char.isDigit = true := List.all_eq_true.mpr
      fun c member => Nat.isDigit_of_mem_toDigits (by decide) (by decide) member
    rw [if_pos digits, Nat.ofDigitChars_ten_toDigits]

namespace Members

theorem get?_map_of_keys {ms : Members} {k : String} {g : String × Value → String × Value}
    (keys : ∀ m, (g m).1 = m.1) :
    Members.get? (ms.map g) k = (ms.find? (·.1 == k)).map fun m => (g m).2 := by
  have same : ((fun m : String × Value => m.1 == k) ∘ g) = fun m => m.1 == k := by
    funext m
    simp [keys m]
  rw [get?_eq_map_find?, List.find?_map, same, Option.map_map]
  rfl

end Members

namespace Value

theorem atTokens_cons (k : String) (rest : List String) (v : Value) :
    v.atTokens (k :: rest) = (v.atTokens [k]).bind (atTokens rest) := by
  cases v <;> simp [atTokens, Option.bind_assoc]

theorem atTokens_index (i : Nat) (xs : List Value) :
    (Value.array xs).atTokens [toString i] = xs[i]? := by
  simp only [atTokens, indexToken_toString, Option.bind_some]
  cases xs[i]? <;> rfl

theorem field?_eq_atTokens {k : String} (named : indexToken k = none) (v : Value) :
    v.field? k = v.atTokens [k] := by
  cases v <;> simp [field?, asObject?, atTokens, named]

theorem atTokens_updateTokens_of_ne {f : Value → Value} {h k : String} {σ rest : List String}
    (v : Value) (other : h ≠ k) (named : indexToken k = none) :
    (updateTokens f (h :: σ) v).atTokens (k :: rest) = v.atTokens (k :: rest) := by
  cases v with
  | object ms =>
    simp only [updateTokens, atTokens]
    rw [Members.get?_map_of_keys ?keys, Members.get?_eq_map_find?]
    · cases found : ms.find? (·.1 == k) with
      | none => rfl
      | some m =>
        have key : m.1 = k := by simpa using List.find?_some found
        simp [key, Ne.symm other]
    case keys =>
      rintro ⟨k', v'⟩
      dsimp only
      split <;> rfl
  | array xs =>
    simp only [updateTokens]
    split <;> simp [atTokens, named]
  | _ => rfl

theorem atTokens_updateTokens_self {f : Value → Value} {k : String} {σ : List String}
    (v : Value) (named : indexToken k = none) :
    (updateTokens f (k :: σ) v).atTokens [k] = (v.atTokens [k]).map (updateTokens f σ) := by
  cases v with
  | object ms =>
    simp only [updateTokens, atTokens]
    rw [Members.get?_map_of_keys ?keys, Members.get?_eq_map_find?]
    · cases found : ms.find? (·.1 == k) with
      | none => rfl
      | some m =>
        have key : m.1 = k := by simpa using List.find?_some found
        simp [key]
    case keys =>
      rintro ⟨k', v'⟩
      dsimp only
      split <;> rfl
  | array xs =>
    simp only [updateTokens]
    split <;> simp [atTokens, named]
  | _ => rfl

theorem updateTokens_index (w : Value) (i : Nat) (xs : List Value) :
    updateTokens (fun _ => w) [toString i] (.array xs) = .array (xs.set i w) := by
  simp only [updateTokens, indexToken_toString]
  congr 1
  refine List.ext_getElem (by simp) fun j _ _ => ?_
  simp only [List.getElem_map, List.getElem_zipIdx, List.getElem_set, beq_iff_eq]
  split_ifs <;> first | rfl | omega

theorem atTokens_renameKey_of_ne {pointer old new h k : String} {rest : List String} (v : Value)
    (below : PointsBelow h pointer) (other : h ≠ k) (named : indexToken k = none) :
    (v.renameKey pointer old new).2.atTokens (k :: rest) = v.atTokens (k :: rest) := by
  unfold renameKey
  split
  · rfl
  · rename_i tokens read
    obtain ⟨σ, rfl⟩ := below tokens read
    split
    · split
      · exact atTokens_updateTokens_of_ne v other named
      · rfl
    · rfl

theorem beq_some_string {found : Option Value} {s : String} :
    (found == some (Value.string s)) = true ↔ found = some (.string s) := by
  cases found with
  | none => simp
  | some v =>
    rw [Option.some_beq_some]
    cases v <;> simp [BEq.beq, Value.beq]

mutual

theorem strings_below : (v : Value) → (pointer : String) →
    ∀ e ∈ v.strings pointer, e.1 = pointer ∨ ∃ more, e.1 = pointer ++ "/" ++ more
  | .string _, _ => by simp [strings]
  | .array xs, pointer => fun e member =>
    .inr (stringsOfItems_below xs pointer 0 e (by simpa [strings] using member))
  | .object ms, pointer => fun e member =>
    .inr (stringsOfMembers_below ms pointer e (by simpa [strings] using member))
  | .null, _ => by simp [strings]
  | .bool _, _ => by simp [strings]
  | .number _, _ => by simp [strings]

theorem stringsOfItems_below : (xs : List Value) → (pointer : String) → (i : Nat) →
    ∀ e ∈ stringsOfItems pointer i xs, ∃ more, e.1 = pointer ++ "/" ++ more
  | [], _, _ => by simp [stringsOfItems]
  | x :: xs, pointer, i => by
    intro e member
    simp only [stringsOfItems, List.mem_append] at member
    rcases member with here | later
    · rcases strings_below x _ e here with same | ⟨more, below⟩
      · exact ⟨toString i, same⟩
      · exact ⟨toString i ++ "/" ++ more, by simp [below, String.append_assoc]⟩
    · exact stringsOfItems_below xs pointer (i + 1) e later

theorem stringsOfMembers_below : (ms : List (String × Value)) → (pointer : String) →
    ∀ e ∈ stringsOfMembers pointer ms, ∃ more, e.1 = pointer ++ "/" ++ more
  | [], _ => by simp [stringsOfMembers]
  | (k, v) :: ms, pointer => by
    intro e member
    simp only [stringsOfMembers, List.mem_append] at member
    rcases member with here | later
    · rcases strings_below v _ e here with same | ⟨more, below⟩
      · exact ⟨escapeToken k, same⟩
      · exact ⟨escapeToken k ++ "/" ++ more, by simp [below, String.append_assoc]⟩
    · exact stringsOfMembers_below ms pointer e later

end

theorem strings_pointsBelow {key : String} (plain : PlainToken key) (v : Value) :
    ∀ e ∈ v.strings ("/" ++ key), PointsBelow key e.1 := by
  intro e member
  rcases strings_below v _ e member with same | ⟨more, below⟩
  · rw [same]
    exact pointsBelow_single plain
  · rw [below]
    exact pointsBelow_cons plain

end Value

end Monorepo.Json
