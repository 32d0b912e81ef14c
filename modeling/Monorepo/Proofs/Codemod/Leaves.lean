import Mathlib
import Monorepo.Codemod.Literal
import Monorepo.Codemod.Render

/-!
# Reading back the leaves the renderer writes

A literal written by `renderValue` is read back by `literalValue` once the file is parsed. The
parse in between is the grammar's; what this module proves is the rest of the round trip, at the
leaves: the body of a string written in either quote unescapes to the string itself, and the
digits of an integer read back as that integer exactly when it fits 64 signed bits. A natural
number from `2 ^ 63` on is written as its digits but read back as a float, so it does not survive
the round trip.
-/

namespace Monorepo.Codemod

open Monorepo.Json

/-- The characters the renderer writes for one character of a string in `quote`. -/
def escapedChars (quote c : Char) : List Char :=
  if c == '\\' then ['\\', '\\']
  else if c == '\n' then ['\\', 'n']
  else if c == '\r' then ['\\', 'r']
  else if c == '\t' then ['\\', 't']
  else if c == quote then ['\\', c]
  else [c]

theorem toList_foldl_of_appends {f : String → Char → String} {g : Char → List Char}
    (appends : ∀ acc c, (f acc c).toList = acc.toList ++ g c) (l : List Char) (acc : String) :
    (l.foldl f acc).toList = acc.toList ++ l.flatMap g := by
  induction l generalizing acc with
  | nil => simp
  | cons c rest ih => simp [List.foldl_cons, ih, appends]

theorem toList_renderString (s : String) (quote : Char) :
    (renderString s quote).toList = quote :: s.toList.flatMap (escapedChars quote) ++ [quote] := by
  unfold renderString
  dsimp only
  rw [String.foldl_eq_foldl_toList, String.toList_append, String.toList_append,
    toList_foldl_of_appends (g := escapedChars quote)]
  · simp
  · intro acc c
    unfold escapedChars
    split_ifs <;> simp

theorem extract_go₂_append (body rest : List Char) (p : String.Pos.Raw) :
    String.Pos.Raw.extract.go₂ (body ++ rest) p ⟨p.byteIdx + String.utf8Len body⟩ = body := by
  induction body generalizing p with
  | nil =>
    cases rest with
    | nil => rfl
    | cons c cs => simp [String.Pos.Raw.extract.go₂]
  | cons c cs ih =>
    have before : p ≠ ⟨p.byteIdx + String.utf8Len (c :: cs)⟩ := by
      intro same
      have sizes := congrArg String.Pos.Raw.byteIdx same
      simp only [String.utf8Len_cons] at sizes
      have := c.utf8Size_pos
      omega
    have next := ih (p + c)
    rw [String.Pos.Raw.add_char_eq] at next
    rw [List.cons_append, String.Pos.Raw.extract.go₂, if_neg before, String.Pos.Raw.add_char_eq]
    simp only [String.utf8Len_cons] at next ⊢
    rw [show p.byteIdx + (String.utf8Len cs + c.utf8Size) = p.byteIdx + c.utf8Size + String.utf8Len cs
      by omega, next]

theorem toList_stripQuotes {t : String} {quote : Char} {body : List Char}
    (oneByte : quote.utf8Size = 1) (quoted : t.toList = quote :: body ++ [quote]) :
    (stripQuotes t).toList = body := by
  have size : t.utf8ByteSize = String.utf8Len body + 2 := by
    rw [← String.utf8Len_toList, quoted]
    simp [String.utf8Len_cons, String.utf8Len_append, oneByte]
  unfold stripQuotes
  rw [if_pos (by omega), String.Pos.Raw.extract]
  split
  next adjacent =>
    have empty : String.utf8Len body = 0 := by simp only [size] at adjacent; omega
    simp [String.utf8Len_eq_zero.mp empty]
  next apart =>
    have nonempty : body ≠ [] := by
      rintro rfl
      simp only [size, String.utf8Len_nil] at apart
      omega
    obtain ⟨c, cs, rfl⟩ := List.exists_cons_of_ne_nil nonempty
    have stop : (⟨t.utf8ByteSize - 1⟩ : String.Pos.Raw) =
        ⟨(⟨1⟩ : String.Pos.Raw).byteIdx + String.utf8Len (c :: cs)⟩ := by
      simp only [size]
      congr 1
      omega
    have start : (⟨String.Pos.Raw.byteIdx 0 + quote.utf8Size⟩ : String.Pos.Raw) = ⟨1⟩ := by
      simp [oneByte]
    rw [quoted, List.cons_append, String.Pos.Raw.extract.go₁, if_neg (by decide),
      String.Pos.Raw.add_char_eq, List.cons_append, String.Pos.Raw.extract.go₁,
      if_pos (by simp [oneByte]), ← List.cons_append, stop, start, extract_go₂_append,
      String.toList_ofList]

theorem toList_unescape_escaped {quote : Char} (quoted : quote = '\'' ∨ quote = '"')
    (l : List Char) : (unescape (l.flatMap (escapedChars quote))).toList = l := by
  induction l with
  | nil => simp [unescape]
  | cons c rest ih =>
    rw [List.flatMap_cons]
    by_cases backslash : c = '\\'
    · subst backslash
      simp [escapedChars, unescape.eq_8, ih]
    by_cases newline : c = '\n'
    · subst newline
      simp [escapedChars, unescape.eq_2, ih]
    by_cases ret : c = '\r'
    · subst ret
      simp [escapedChars, unescape.eq_3, ih]
    by_cases tab : c = '\t'
    · subst tab
      simp [escapedChars, unescape.eq_4, ih]
    by_cases isQuote : c = quote
    · subst isQuote
      rcases quoted with rfl | rfl <;> simp [escapedChars, unescape.eq_8, ih]
    · simp [escapedChars, backslash, newline, ret, tab, isQuote, unescape.eq_10, ih]

theorem unescape_stripQuotes_renderString (s : String) {quote : Char}
    (quoted : quote = '\'' ∨ quote = '"') :
    unescape (stripQuotes (renderString s quote)).toList = s := by
  have oneByte : quote.utf8Size = 1 := by rcases quoted with rfl | rfl <;> rfl
  rw [toList_stripQuotes oneByte (toList_renderString s quote), ← String.toList_inj,
    toList_unescape_escaped quoted]

theorem hexDigit_digitChar {d : Nat} (small : d < 10) : hexDigit (Nat.digitChar d) = some d :=
  (by decide : ∀ d < 10, hexDigit (Nat.digitChar d) = some d) d small

/-- Reading the decimal digits of `n` one by one, each step multiplying by ten and adding the
digit, gives `n`; the induction follows `Nat.toDigits`, which writes `n / 10` and then the last
digit. -/
theorem foldl_toDigits {f : Option Nat → Char → Option Nat}
    (reads : ∀ a d, d < 10 → f (some a) (Nat.digitChar d) = some (a * 10 + d)) (n : Nat) :
    (Nat.toDigits 10 n).foldl f (some 0) = some n := by
  induction n using Nat.strong_induction_on with
  | _ n ih =>
    by_cases small : n < 10
    · rw [Nat.toDigits_of_lt_base small, List.foldl_cons, List.foldl_nil, reads 0 n small,
        Nat.zero_mul, Nat.zero_add]
    · rw [Nat.toDigits_of_base_le (by decide) (by omega), List.foldl_append,
        ih (n / 10) (by omega), List.foldl_cons, List.foldl_nil,
        reads _ _ (Nat.mod_lt _ (by decide))]
      congr 1
      omega

theorem readRadix_ten_toDigits (negative : Bool) (n : Nat) :
    readRadix 10 (String.ofList ((if negative then ['-'] else []) ++ Nat.toDigits 10 n)) =
      some (if negative then -(n : Int) else n) := by
  have digits := foldl_toDigits (f := fun acc c => acc.bind fun a =>
      (hexDigit c).bind fun d => if d < 10 then some (a * 10 + d) else none)
    (fun a d small => by simp [hexDigit_digitChar small, small]) n
  obtain ⟨first, rest, spelled⟩ := List.exists_cons_of_ne_nil (Nat.toDigits_ne_nil (b := 10) (n := n))
  have isDigit : first.isDigit = true :=
    Nat.isDigit_of_mem_toDigits (by decide) (by decide) (spelled ▸ List.mem_cons_self)
  unfold readRadix
  cases negative with
  | true => simp [digits]
  | false =>
    have unsigned : first ≠ '-' ∧ first ≠ '+' := by
      constructor <;> rintro rfl <;> exact absurd isDigit (by decide)
    simp only [String.toList_ofList, Bool.false_eq_true, if_false, List.nil_append]
    split
    next cs signed => exact absurd (List.cons.inj (spelled.symm.trans signed)).1 unsigned.1
    next cs signed => exact absurd (List.cons.inj (spelled.symm.trans signed)).1 unsigned.2
    next => simp [digits, Nat.toDigits_ne_nil]

theorem fitsWord_iff (i : Int) : fitsWord i = true ↔ -2 ^ 63 ≤ i ∧ i < 2 ^ 63 := by
  rw [fitsWord, show Int.pow 2 63 = 2 ^ 63 from rfl, Bool.and_eq_true, decide_eq_true_eq,
    decide_eq_true_eq]

theorem parseNumber_fallback_natural {cleaned : String} {asInt : Int → Number} {n : Nat}
    (read : parseNumber.fallback cleaned asInt = some (.natural n)) :
    ∃ i, fitsWord i = true ∧ asInt i = .natural n := by
  unfold parseNumber.fallback at read
  dsimp only at read
  split at read
  · split at read
    · split at read
      next fits => exact ⟨_, fits, Option.some.inj read⟩
      next => cases read
    · cases read
  · obtain ⟨f, -, float⟩ := Option.bind_eq_some_iff.mp read
    unfold Number.ofFloat at float
    split at float <;> cases float

theorem parseNumber_natural_lt {text : String} {n : Nat}
    (read : parseNumber text = some (.natural n)) : n < 2 ^ 63 := by
  have fitting : ∀ i : Int, fitsWord i = true →
      (if i < 0 then Number.negative i else .natural i.toNat) = .natural n → n < 2 ^ 63 := by
    intro i fits named
    split at named
    · cases named
    · cases named
      have := (fitsWord_iff i).mp fits
      omega
  unfold parseNumber at read
  dsimp only at read
  split at read
  · split at read
    next fits => exact fitting _ fits (Option.some.inj read)
    next =>
      obtain ⟨i, fits, named⟩ := parseNumber_fallback_natural read
      exact fitting i fits named
  · obtain ⟨i, fits, named⟩ := parseNumber_fallback_natural read
    exact fitting i fits named

theorem filter_toDigits (n : Nat) : (Nat.toDigits 10 n).filter (· != '_') = Nat.toDigits 10 n := by
  refine List.filter_eq_self.mpr fun c digit => ?_
  have isDigit := Nat.isDigit_of_mem_toDigits (by decide) (by decide) digit
  rw [bne_iff_ne, ne_eq]
  rintro rfl
  exact absurd isDigit (by decide)

theorem parseNumber_render_natural (n : Nat) :
    parseNumber (Number.render (.natural n)) = some (.natural n) ↔ n < 2 ^ 63 := by
  refine ⟨parseNumber_natural_lt, fun small => ?_⟩
  have read := readRadix_ten_toDigits false n
  simp only [Bool.false_eq_true, if_false, List.nil_append] at read
  have fits : fitsWord n = true := (fitsWord_iff n).mpr ⟨by omega, by omega⟩
  unfold parseNumber
  simp [Number.render, Nat.repr_eq_ofList_toDigits, filter_toDigits, read, fits]

theorem parseNumber_render_negative {i : Int} (atLeast : -2 ^ 63 ≤ i) (negative : i < 0) :
    parseNumber (Number.render (.negative i)) = some (.negative i) := by
  have read := readRadix_ten_toDigits true i.natAbs
  simp only [if_true] at read
  rw [show -(i.natAbs : Int) = i by omega] at read
  have fits : fitsWord i = true := (fitsWord_iff i).mpr ⟨atLeast, by omega⟩
  have spelled : (Number.render (.negative i)).toList.filter (· != '_') =
      ['-'] ++ Nat.toDigits 10 i.natAbs := by
    simp [Number.render, Nat.repr_eq_ofList_toDigits, filter_toDigits]
  unfold parseNumber
  dsimp only
  rw [spelled, read]
  simp [fits, negative]

end Monorepo.Codemod
