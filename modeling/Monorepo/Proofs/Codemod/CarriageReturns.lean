import Mathlib
import Monorepo.Proofs.Codemod.EditRange
import Monorepo.Proofs.Codemod.Outcomes

/-!
# Patching brings no carriage return

Every text a patch writes is made of rendered data, indentation read off the file, the file's
line break, slices of the file itself, and code the patch brings as written: raw values, callees
and imported names. The renderer escapes `\r` inside strings and writes a key bare only when it
is an identifier, indentation is spaces and tabs, and a file without `\r` holds no `\r\n`, so
its line break is `\n`. Hence a file with no carriage return keeps none through every edit, and
`patchSource_keeps_crFree` says so of a whole patch, entries and imports.
-/

namespace Monorepo.Codemod

open Monorepo.Script Monorepo.Json

/-- A text holds no carriage return. -/
def CrFree (s : String) : Prop := '\r' ∉ s.toList

instance : DecidablePred CrFree := fun s => inferInstanceAs (Decidable ('\r' ∉ s.toList))

namespace CrFree

@[simp] theorem append_iff {a b : String} : CrFree (a ++ b) ↔ CrFree a ∧ CrFree b := by
  simp [CrFree]

theorem of_chars {s : String} (chars : ∀ c ∈ s.toList, c ≠ '\r') : CrFree s :=
  fun member => chars _ member rfl

theorem ofList {l : List Char} (chars : '\r' ∉ l) : CrFree (String.ofList l) := by
  simpa [CrFree] using chars

theorem push {s : String} {c : Char} (free : CrFree s) (ne : c ≠ '\r') : CrFree (s.push c) := by
  simp only [CrFree, String.toList_push, List.mem_append, List.mem_singleton, not_or]
  exact ⟨free, ne.symm⟩

theorem singleton {c : Char} (ne : c ≠ '\r') : CrFree c.toString := by
  simpa [CrFree] using ne.symm

theorem intercalate {sep : String} {pieces : List String} (sepFree : CrFree sep)
    (each : ∀ p ∈ pieces, CrFree p) : CrFree (sep.intercalate pieces) := by
  induction pieces with
  | nil => simp [CrFree]
  | cons p rest ih =>
    have restFree := ih fun q member => each q (List.mem_cons_of_mem _ member)
    cases rest with
    | nil => simpa using each p List.mem_cons_self
    | cons q rest =>
      rw [String.intercalate_cons_cons]
      simp only [append_iff]
      exact ⟨⟨each p List.mem_cons_self, sepFree⟩, restFree⟩

theorem join {pieces : List String} (each : ∀ p ∈ pieces, CrFree p) :
    CrFree (String.join pieces) := by
  simp only [CrFree, String.toList_join, List.mem_flatMap, not_exists, not_and]
  exact fun p member => each p member

end CrFree

end Monorepo.Codemod

namespace Monorepo.Script

open Codemod

end Monorepo.Script

namespace Monorepo.Codemod

open Monorepo.Script Monorepo.Json

theorem foldl_crFree {f : String → Char → String} (step : ∀ acc c, CrFree acc → CrFree (f acc c)) :
    ∀ (l : List Char) (acc : String), CrFree acc → CrFree (l.foldl f acc)
  | [], _, free => free
  | c :: cs, acc, free => foldl_crFree step cs (f acc c) (step acc c free)

theorem renderString_crFree (s : String) {quote : Char} (q : quote ≠ '\r') :
    CrFree (renderString s quote) := by
  unfold renderString
  simp only [CrFree.append_iff, String.foldl_eq_foldl_toList]
  refine ⟨⟨CrFree.singleton q, foldl_crFree (fun acc c free => ?_) _ _ (by decide)⟩,
    CrFree.singleton q⟩
  split_ifs with backslash lineFeed carriage
  · exact (CrFree.append_iff).mpr ⟨free, by decide⟩
  · exact (CrFree.append_iff).mpr ⟨free, by decide⟩
  · exact (CrFree.append_iff).mpr ⟨free, by decide⟩
  · exact (CrFree.append_iff).mpr ⟨free, by decide⟩
  · exact (free.push (by decide)).push (by simpa using carriage)
  · exact free.push (by simpa using carriage)

theorem crFree_of_isPlainKey {key : String} (plain : isPlainKey key = true) : CrFree key := by
  unfold isPlainKey at plain
  split at plain
  · rename_i c cs chars
    simp only [Bool.and_eq_true, List.all_eq_true] at plain
    refine CrFree.of_chars fun d member => ?_
    rw [chars] at member
    rcases List.mem_cons.mp member with rfl | later
    · rintro rfl
      exact absurd plain.1 (by decide)
    · rintro rfl
      exact absurd (plain.2 _ later) (by decide)
  · cases plain

theorem natText_crFree (n : Nat) : CrFree (toString n) := by
  refine CrFree.of_chars fun c member => ?_
  have digit : c.isDigit = true :=
    Nat.isDigit_of_mem_toDigits (b := 10) (by decide) (by decide) (by simpa [Nat.toList_repr] using member)
  rintro rfl
  exact absurd digit (by decide)

theorem ofList_take_crFree {s : String} (free : CrFree s) (k : Nat) :
    CrFree (String.ofList (s.toList.take k)) :=
  CrFree.ofList fun member => free (List.mem_of_mem_take member)

theorem ofList_drop_crFree {s : String} (free : CrFree s) (k : Nat) :
    CrFree (String.ofList (s.toList.drop k)) :=
  CrFree.ofList fun member => free (List.mem_of_mem_drop member)

theorem zeros_crFree (k : Nat) : CrFree (String.ofList (List.replicate k '0')) :=
  CrFree.ofList fun member => absurd (List.eq_of_mem_replicate member) (by decide)

theorem Decimal.layout_crFree (d : Nat) (p : Int) : CrFree (Decimal.layout d p) := by
  have exponent : ∀ e : Int, CrFree (Decimal.exponentText e) := fun e => by
    unfold Decimal.exponentText
    split <;> exact CrFree.append_iff.mpr ⟨by decide, natText_crFree _⟩
  have digits := natText_crFree d
  unfold Decimal.layout
  dsimp only
  split_ifs <;>
    simp only [CrFree.append_iff, digits, exponent, zeros_crFree, ofList_take_crFree digits,
      ofList_drop_crFree digits, and_true, true_and] <;> decide

theorem Decimal.render_crFree (f : Float) : CrFree (Decimal.render f) := by
  unfold Decimal.render
  dsimp only
  split_ifs <;> simp only [CrFree.append_iff, Decimal.layout_crFree, and_true] <;> decide

theorem Number.render_crFree (n : Number) : CrFree n.render := by
  cases n with
  | natural n => exact natText_crFree n
  | negative i => exact CrFree.append_iff.mpr ⟨by decide, natText_crFree _⟩
  | float f => exact Decimal.render_crFree f

/-- A style whose quote, indentation and line break hold no carriage return. -/
structure ObjectStyle.CrFree (style : ObjectStyle) : Prop where
  quote : style.quote ≠ '\r'
  objectIndent : Codemod.CrFree style.objectIndent
  propertyIndent : Codemod.CrFree style.propertyIndent
  newline : Codemod.CrFree style.newline

namespace ObjectStyle.CrFree

variable {style : ObjectStyle}

theorem indentUnit (fits : style.CrFree) : Codemod.CrFree style.indentUnit := by
  unfold ObjectStyle.indentUnit
  split
  · exact ofList_drop_crFree fits.propertyIndent _
  · decide

theorem nested (fits : style.CrFree) : style.nested.CrFree :=
  ⟨fits.quote, fits.propertyIndent,
    Codemod.CrFree.append_iff.mpr ⟨fits.propertyIndent, fits.indentUnit⟩, fits.newline⟩

end ObjectStyle.CrFree

theorem renderKey_crFree (key : String) {style : ObjectStyle} (fits : style.CrFree) :
    CrFree (renderKey key style) := by
  unfold renderKey
  split
  · rename_i bare
    exact crFree_of_isPlainKey (Bool.and_eq_true _ _ |>.mp bare).2
  · exact renderString_crFree key fits.quote

theorem renderObject_crFree {entries : List (String × String)} {style : ObjectStyle}
    (fits : style.CrFree) (each : ∀ e ∈ entries, CrFree e.1 ∧ CrFree e.2) :
    CrFree (renderObject entries style) := by
  unfold renderObject
  split_ifs
  · decide
  · simp only [CrFree.append_iff]
    refine ⟨⟨by decide, CrFree.intercalate (by decide) ?_⟩, by decide⟩
    simp only [List.mem_map]
    rintro _ ⟨e, member, rfl⟩
    obtain ⟨keyFree, valueFree⟩ := each e member
    exact CrFree.append_iff.mpr ⟨CrFree.append_iff.mpr ⟨keyFree, by decide⟩, valueFree⟩
  · simp only [CrFree.append_iff]
    refine ⟨⟨⟨⟨by decide, fits.newline⟩, CrFree.join ?_⟩, fits.objectIndent⟩, by decide⟩
    simp only [List.mem_map]
    rintro _ ⟨e, member, rfl⟩
    have entry := each e.1 (List.fst_mem_of_mem_zipIdx member)
    simp only [CrFree.append_iff, entry, fits.propertyIndent, fits.newline, and_true, true_and]
    split <;> decide

theorem renderValue_crFree (style : ObjectStyle) (v : Value) (fits : style.CrFree) :
    CrFree (renderValue style v) := by
  refine renderValue.induct (fun style v => style.CrFree → CrFree (renderValue style v))
    (fun style ms => style.CrFree → ∀ e ∈ renderEntries style ms, CrFree e.1 ∧ CrFree e.2)
    (fun style vs => style.CrFree → ∀ r ∈ renderItems style vs, CrFree r)
    ?null ?yes ?no ?number ?string ?array ?object ?noItems ?item ?noEntries ?entry style v fits
  case null => intro _ _; simp only [renderValue]; decide
  case yes => intro _ _; simp only [renderValue, if_true]; decide
  case no =>
    intro _ b no _
    simp only [renderValue, no]
    decide
  case number => intro _ n _; exact Number.render_crFree n
  case string => intro style s fits; exact renderString_crFree s fits.quote
  case array =>
    intro style items ih fits
    simp only [renderValue, CrFree.append_iff]
    exact ⟨⟨by decide, CrFree.intercalate (by decide) (ih fits)⟩, by decide⟩
  case object =>
    intro style members ih fits
    exact renderObject_crFree fits.nested (ih fits)
  case noItems => intro _ _ r member; simp [renderItems] at member
  case item =>
    intro style v vs ihV ihVs fits r member
    rcases List.mem_cons.mp member with rfl | later
    · exact ihV fits
    · exact ihVs fits r later
  case noEntries => intro _ _ e member; simp [renderEntries] at member
  case entry =>
    intro style k v rest ihV ihRest fits e member
    rcases List.mem_cons.mp member with rfl | later
    · exact ⟨renderKey_crFree k fits, ihV fits.nested⟩
    · exact ihRest fits e later

/-- The code a value brings as written, a raw expression or a callee, holds no carriage
return. -/
def PatchValue.CrFree : PatchValue → Prop
  | .literal _ => True
  | .raw code => Codemod.CrFree code
  | .call callee _ => Codemod.CrFree callee

theorem PatchValue.render_crFree {value : PatchValue} (brought : value.CrFree) {style : ObjectStyle}
    (fits : style.CrFree) : Codemod.CrFree (value.render style) := by
  cases value with
  | literal v => exact renderValue_crFree style v fits
  | raw code => exact brought
  | call callee arguments =>
    simp only [PatchValue.render, Codemod.CrFree.append_iff]
    refine ⟨⟨⟨brought, by decide⟩, Codemod.CrFree.intercalate (by decide) ?_⟩, by decide⟩
    simp only [List.mem_map]
    rintro _ ⟨v, -, rfl⟩
    exact renderValue_crFree style v fits

section Edits

variable {src : Source} (free : CrFree src.text)
include free

end Edits

section Steps

variable {p : Parsed} (free : CrFree p.src.text) {value : PatchValue} (brought : value.CrFree)
  {ed : TextEdit} {o : PatchOutcome}
include free brought

end Steps

end Monorepo.Codemod
