import Mathlib
import Monorepo.Workspace.Reference
import Monorepo.Proofs.Outcome
/-!
# Rewriting the spans of a source file

The span references of one file are applied from the last range to the first, so that the
offsets of the ranges still to come stay valid. For ranges that lie in the text one after
another and still hold their old text, that order makes the edits simultaneous: the file is
written as its bytes with each range replaced by its reference's new text and every other byte
kept, whatever order the references come in.

The value references of a JSON file are applied one after another instead, each only where its
pointer still holds its old text: of two references at one pointer, the second is skipped.
-/

namespace Monorepo.Workspace

/-- Where a span starts; other locations sort as if they started at the beginning. -/
def Location.start : Location → Nat
  | .span s _ => s
  | _ => 0

@[simp] theorem Location.start_span (s e : Nat) : (Location.span s e).start = s := rfl

/-- The bytes from `pos` on with each span of `refs`, listed in file order, replaced by its
reference's new text: the bytes up to the first span, its new text, the bytes from its end to
the next span, and so on to the end of the text. -/
def splice (bytes : Utf8.Bytes) (pos : Nat) : List Reference → Utf8.Bytes
  | [] => bytes.drop pos
  | r :: rest =>
    match r.location with
    | .span s e => (bytes.drop pos).take (s - pos) ++ Utf8.encode r.newValue ++ splice bytes e rest
    | _ => splice bytes pos rest

/-- Span references of `bytes` in file order from `pos` on: each range lies in the text, holds
its reference's old text, and starts where the one before it ends (or later) and after the one
before it starts. -/
def SpansFrom (bytes : Utf8.Bytes) : Nat → List Reference → Prop
  | _, [] => True
  | pos, r :: rest => ∃ s e, r.location = .span s e ∧ pos ≤ s ∧ s ≤ e ∧ e ≤ bytes.length ∧
      (bytes.drop s).take (e - s) = Utf8.encode r.oldValue ∧ SpansFrom bytes (max e (s + 1)) rest

theorem SpansFrom.start_le {bytes : Utf8.Bytes} {pos : Nat} {refs : List Reference}
    (spans : SpansFrom bytes pos refs) : ∀ r ∈ refs, pos ≤ r.location.start := by
  induction refs generalizing pos with
  | nil => simp
  | cons r rest ih =>
    obtain ⟨s, e, located, first, -, -, -, later⟩ := spans
    intro q member
    rcases List.mem_cons.mp member with rfl | inRest
    · rwa [located, Location.start_span]
    · exact le_trans (by omega) (ih later q inRest)

theorem SpansFrom.mono {bytes : Utf8.Bytes} {pos pos' : Nat} {refs : List Reference}
    (spans : SpansFrom bytes pos refs) (le : pos' ≤ pos) : SpansFrom bytes pos' refs := by
  cases refs with
  | nil => trivial
  | cons r rest =>
    obtain ⟨s, e, located, first, rest⟩ := spans
    exact ⟨s, e, located, le_trans le first, rest⟩

theorem SpansFrom.ascending {bytes : Utf8.Bytes} {pos : Nat} {refs : List Reference}
    (spans : SpansFrom bytes pos refs) :
    refs.Pairwise fun a b => a.location.start < b.location.start := by
  induction refs generalizing pos with
  | nil => exact .nil
  | cons r rest ih =>
    obtain ⟨s, e, located, -, -, -, -, later⟩ := spans
    refine List.pairwise_cons.mpr ⟨fun q member => ?_, ih later⟩
    have after := later.start_le q member
    rw [located, Location.start_span]
    omega

theorem mergeSort_of_ascending {α : Type} (le : α → α → Bool) (key : α → Nat)
    (keyed : ∀ a b, le a b = decide (key b ≤ key a)) {l l' : List α} (arranged : l.Perm l')
    (ascending : l'.Pairwise fun a b => key a < key b) : l.mergeSort le = l'.reverse := by
  have distinct : l'.Pairwise fun a b => key a ≠ key b := ascending.imp Nat.ne_of_lt
  have : Std.Symm fun a b : α => key a ≠ key b := ⟨fun _ _ ne => ne.symm⟩
  have same : ∀ a b, a ∈ l.mergeSort le → b ∈ l'.reverse → le a b = true → le b a = true →
      a = b := by
    intro a b memA memB ab ba
    simp only [keyed, decide_eq_true_eq] at ab ba
    by_contra ne
    exact distinct.forall (arranged.subset (List.mem_mergeSort.mp memA))
      (List.mem_reverse.mp memB) ne (by omega)
  have sorted : (l.mergeSort le).Pairwise fun a b => le a b = true :=
    List.pairwise_mergeSort (fun a b c => by simp only [keyed, decide_eq_true_eq]; omega)
      (fun a b => by simp only [keyed, Bool.or_eq_true, decide_eq_true_eq]; omega) l
  have descending : l'.Pairwise fun a b => le b a = true :=
    ascending.imp fun lt => by simp only [keyed, decide_eq_true_eq]; omega
  exact List.Perm.eq_of_pairwise same sorted (List.pairwise_reverse.mpr descending)
    (((List.mergeSort_perm l le).trans arranged).trans (List.reverse_perm l').symm)

section Loop

variable {bytes : Utf8.Bytes}

theorem take_append_take_drop {pos s : Nat} (le : pos ≤ s) :
    bytes.take pos ++ (bytes.drop pos).take (s - pos) = bytes.take s := by
  rw [← List.take_add, Nat.add_sub_cancel' le]

/-- Processing the references of a file from the last range back to `pos` leaves the text
before `pos` alone and splices the rest. The induction runs over the file order, so that the
range at the front is the one processed last. -/
theorem foldlM_reverse_splice
    {g : ForInStep Utf8.Bytes → Reference → Outcome (ForInStep Utf8.Bytes)}
    (step : ∀ r b s e, r.location = .span s e → (b.drop s).take (e - s) = Utf8.encode r.oldValue →
      g (.yield b) r = .ok (.yield (replaceBytes b s e (Utf8.encode r.newValue))))
    {refs : List Reference} {pos : Nat} (spans : SpansFrom bytes pos refs) :
    refs.reverse.foldlM g (.yield bytes) =
      .ok (.yield (bytes.take pos ++ splice bytes pos refs)) := by
  induction refs generalizing pos with
  | nil => simp [splice]
  | cons r rest ih =>
    obtain ⟨s, e, located, first, ordered, inText, holds, later⟩ := spans
    have prefixLength : (bytes.take e).length = e := List.length_take_of_le inText
    rw [List.reverse_cons, List.foldlM_append, ih (later.mono (le_max_left e (s + 1)))]
    have current : ((bytes.take e ++ splice bytes e rest).drop s).take (e - s) =
        Utf8.encode r.oldValue := by
      rw [List.drop_append_of_le_length (by omega), List.take_append_of_le_length (by simp; omega),
        List.drop_take, List.take_take, min_self, holds]
    simp only [List.foldlM_cons, List.foldlM_nil, except_ok_bind, bind_pure]
    rw [step r _ s e located current]
    simp only [replaceBytes, splice, located]
    rw [List.take_append_of_le_length (by omega), List.take_take, min_eq_left ordered,
      List.drop_append_of_le_length (by omega), List.drop_eq_nil_of_le (by omega),
      ← take_append_take_drop first]
    simp

theorem forIn_reverse_splice {f : Reference → Utf8.Bytes → Outcome (ForInStep Utf8.Bytes)}
    (step : ∀ r b s e, r.location = .span s e → (b.drop s).take (e - s) = Utf8.encode r.oldValue →
      f r b = .ok (.yield (replaceBytes b s e (Utf8.encode r.newValue))))
    {refs : List Reference} (spans : SpansFrom bytes 0 refs) :
    forIn refs.reverse bytes f = .ok (splice bytes 0 refs) := by
  rw [List.forIn_eq_foldlM, foldlM_reverse_splice step spans]
  simp

end Loop

theorem applySpanEdits_eq_write_splice {t : StagedTree} {file : Path} {content : String}
    {refs inOrder : List Reference} (read : t.readToString file = .ok content)
    (arranged : refs.Perm inOrder) (spans : SpansFrom (Utf8.encode content) 0 inOrder) :
    applySpanEdits t file refs = t.write file (splice (Utf8.encode content) 0 inOrder) := by
  unfold applySpanEdits
  rw [read, except_ok_bind]
  dsimp only
  generalize sortedDef : List.mergeSort refs _ = ordered
  have sorted : ordered = inOrder.reverse := by
    rw [← sortedDef]
    exact mergeSort_of_ascending _ (fun r => r.location.start) (fun a b => rfl) arranged
      spans.ascending
  rw [sorted, forIn_reverse_splice _ spans, except_ok_bind]
  intro r b s e located holds
  simp [located, holds]

end Monorepo.Workspace
