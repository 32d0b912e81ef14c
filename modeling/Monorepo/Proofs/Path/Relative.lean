import Monorepo.Proofs.Path
import Monorepo.Proofs.Outcome

/-! Reading relative texts against a directory. The pieces of a text apply one by one: an empty
piece and `.` leave the place reached, `..` climbs one level and any other piece descends into
it. So the way that climbs from a directory to the part it shares with a path and descends from
there reads back as that path, and a text that never climbs above a directory reads the same
below any other directory that directory is moved under. -/

namespace Monorepo.Path

open Text

/-- What one piece of a text does to the segments reached so far. -/
def applyPiece (original : String) (acc : List String) (s : String) : Outcome (List String) :=
  if s == "" || s == "." then .ok acc
  else if s == ".." then
    match acc with
    | [] => .error (.invalidPath original "escapes the workspace root")
    | _ => .ok acc.dropLast
  else if s.contains (Char.ofNat 0) then .error (.invalidPath original "contains a NUL byte")
  else .ok (acc ++ [s])

variable {original : String}

theorem applySegments_cons (acc : List String) (s : String) (rest : List String) :
    applySegments original acc (s :: rest) =
      applyPiece original acc s >>= fun acc' => applySegments original acc' rest := by
  by_cases skip : (s == "" || s == ".") = true
  · simp [applySegments, applyPiece, skip]
  by_cases up : (s == "..") = true
  · cases acc <;> simp [applySegments, applyPiece, skip, up]
  by_cases nul : s.contains (Char.ofNat 0) = true
  · simp [applySegments, applyPiece, skip, up, nul]
  · simp [applySegments, applyPiece, skip, up, nul]

theorem applyPiece_dot (acc : List String) : applyPiece original acc "." = .ok acc := rfl

theorem applyPiece_empty (acc : List String) : applyPiece original acc "" = .ok acc := rfl

theorem applyPiece_up {acc : List String} (nonempty : acc ≠ []) :
    applyPiece original acc ".." = .ok acc.dropLast := by
  cases acc with
  | nil => exact absurd rfl nonempty
  | cons a rest => rfl

theorem applyPiece_below {acc r : List String} {s : String} (pre : List String)
    (reached : applyPiece original acc s = .ok r) :
    applyPiece original (pre ++ acc) s = .ok (pre ++ r) := by
  by_cases skip : (s == "" || s == ".") = true
  · simp only [applyPiece, skip, if_true, Except.ok.injEq] at reached ⊢
    rw [reached]
  by_cases up : (s == "..") = true
  · have climbs : s = ".." := by simpa using up
    subst climbs
    cases acc with
    | nil => cases reached
    | cons a rest =>
      rw [applyPiece_up (List.cons_ne_nil a rest)] at reached
      cases reached
      rw [applyPiece_up (List.append_ne_nil_of_right_ne_nil pre (List.cons_ne_nil a rest)),
        List.dropLast_append_of_ne_nil (List.cons_ne_nil a rest)]
  by_cases nul : s.contains (Char.ofNat 0) = true
  · simp [applyPiece, skip, up, nul] at reached
  · simp only [applyPiece, skip, up, nul, Bool.false_eq_true, if_false,
      Except.ok.injEq] at reached ⊢
    rw [← reached, List.append_assoc]

theorem applySegments_append {acc r first : List String}
    (reached : applySegments original acc first = .ok r) (more : List String) :
    applySegments original acc (first ++ more) = applySegments original r more := by
  induction first generalizing acc with
  | nil =>
    simp only [applySegments, Except.ok.injEq] at reached
    rw [List.nil_append, reached]
  | cons s rest ih =>
    rw [applySegments_cons] at reached
    obtain ⟨acc', piece, tail⟩ := except_bind_eq_ok.mp reached
    rw [List.cons_append, applySegments_cons, piece, except_ok_bind]
    exact ih tail

theorem applySegments_below {acc r pieces : List String} (pre : List String)
    (reached : applySegments original acc pieces = .ok r) :
    applySegments original (pre ++ acc) pieces = .ok (pre ++ r) := by
  induction pieces generalizing acc with
  | nil =>
    simp only [applySegments, Except.ok.injEq] at reached
    rw [reached]
    rfl
  | cons s rest ih =>
    rw [applySegments_cons] at reached ⊢
    obtain ⟨acc', piece, tail⟩ := except_bind_eq_ok.mp reached
    rw [applyPiece_below pre piece, except_ok_bind]
    exact ih tail

theorem applySegments_climb (k : Nat) {acc : List String} (within : k ≤ acc.length)
    (rest : List String) :
    applySegments original acc (List.replicate k ".." ++ rest) =
      applySegments original (acc.take (acc.length - k)) rest := by
  induction k generalizing acc with
  | zero => simp
  | succ k ih =>
    have nonempty : acc ≠ [] := by
      rintro rfl
      simp at within
    rw [List.replicate_succ, List.cons_append, applySegments_cons, applyPiece_up nonempty,
      except_ok_bind, ih (by simp; omega), List.dropLast_eq_take, List.take_take,
      List.length_take]
    congr 2
    omega

theorem commonLength_le_right (a b : List String) : commonLength a b ≤ b.length := by
  induction a generalizing b with
  | nil => simp [commonLength]
  | cons x xs ih =>
    cases b with
    | nil => simp [commonLength]
    | cons y ys =>
      simp only [commonLength, List.length_cons]
      split
      · exact Nat.succ_le_succ (ih ys)
      · omega

theorem take_commonLength (a b : List String) :
    a.take (commonLength a b) = b.take (commonLength a b) := by
  induction a generalizing b with
  | nil => simp [commonLength]
  | cons x xs ih =>
    cases b with
    | nil => simp [commonLength]
    | cons y ys =>
      simp only [commonLength]
      split
      · rename_i same
        simp [beq_iff_eq.mp same, ih ys]
      · rfl

/-- The way from the directory `base` to `p`: one `..` for each level of `base` below the part
the two share, then the rest of `p`. -/
def wayPieces (base p : Path) : List String :=
  List.replicate (base.length - commonLength p.segments base.segments) ".." ++
    p.segments.drop (commonLength p.segments base.segments)

theorem relativeTo_eq_way (p base : Path) :
    p.relativeTo base =
      if (wayPieces base p).isEmpty then "." else "/".intercalate (wayPieces base p) := rfl

theorem applySegments_way (base p : Path) (named : p.WellFormed) :
    applySegments original base.segments (wayPieces base p) = .ok p.segments := by
  have shared := commonLength_le_right p.segments base.segments
  have climbed : base.segments.length - (base.length - commonLength p.segments base.segments) =
      commonLength p.segments base.segments := by
    simp only [Path.length]
    omega
  have within : base.length - commonLength p.segments base.segments ≤ base.segments.length := by
    simp only [Path.length]
    omega
  rw [wayPieces, applySegments_climb _ within,
    applySegments_segments fun s member => named s (List.mem_of_mem_drop member), climbed,
    ← take_commonLength, List.take_append_drop]

/-- A piece of a way: `.`, `..` or a plain segment. Each is spelled by itself, and starts and
ends with a character that is neither a slash nor white space. -/
def WayPiece (s : String) : Prop := s = "." ∨ s = ".." ∨ PlainSegment s

theorem WayPiece.chars {s : String} (piece : WayPiece s) : ∀ c ∈ s.toList, c ≠ '/' ∧ c ≠ '\\' := by
  rcases piece with rfl | rfl | plain
  · simp
  · simp
  · exact fun c member => ⟨(plain.2.2.2.1 c member).1, (plain.2.2.2.1 c member).2.1⟩

theorem WayPiece.ne_nil {s : String} (piece : WayPiece s) : s.toList ≠ [] := by
  rcases piece with rfl | rfl | plain
  · simp
  · simp
  · exact plain.ne_nil

theorem WayPiece.head {s : String} (piece : WayPiece s) :
    ∀ c ∈ s.toList.head?, c ≠ '/' ∧ isBlank c = false := by
  intro c member
  refine ⟨(piece.chars c (List.mem_of_mem_head? member)).1, ?_⟩
  rcases piece with rfl | rfl | plain
  · simp at member
    subst member
    decide
  · simp at member
    subst member
    decide
  · exact plain.2.2.2.2.1 c member

theorem WayPiece.last {s : String} (piece : WayPiece s) :
    ∀ c ∈ s.toList.getLast?, c ≠ '/' ∧ isBlank c = false := by
  intro c member
  refine ⟨(piece.chars c (List.mem_of_getLast? member)).1, ?_⟩
  rcases piece with rfl | rfl | plain
  · simp at member
    subst member
    decide
  · simp at member
    subst member
    decide
  · exact plain.2.2.2.2.2 c member

theorem intercalate_head_last {pieces : List String} (nonempty : pieces ≠ [])
    (way : ∀ s ∈ pieces, WayPiece s) :
    (∀ c ∈ ("/".intercalate pieces).toList.head?, c ≠ '/' ∧ isBlank c = false) ∧
      ∀ c ∈ ("/".intercalate pieces).toList.getLast?, c ≠ '/' ∧ isBlank c = false := by
  obtain ⟨first, rest, rfl⟩ := List.exists_cons_of_ne_nil nonempty
  obtain ⟨init, last, spelled⟩ := (List.eq_nil_or_concat (first :: rest)).resolve_left nonempty
  rw [List.concat_eq_append] at spelled
  obtain ⟨more, starts⟩ := intercalate_starts first rest
  obtain ⟨front, ends⟩ := intercalate_ends init last
  have firstPiece := way first (by simp)
  have lastPiece := way last (by simp [spelled])
  constructor
  · rw [starts, List.head?_append, Option.or_of_isSome (by simpa using firstPiece.ne_nil)]
    exact firstPiece.head
  · rw [spelled, ends, List.getLast?_append, Option.or_of_isSome (by simpa using lastPiece.ne_nil)]
    exact lastPiece.last

theorem WayPiece.of_climb {k : Nat} {names : List String} (plain : ∀ s ∈ names, PlainSegment s) :
    ∀ s ∈ List.replicate k ".." ++ names, WayPiece s := by
  intro s member
  rcases List.mem_append.mp member with up | down
  · exact .inr (.inl (List.eq_of_mem_replicate up))
  · exact .inr (.inr (plain s down))

theorem intercalate_way_ne_nil {pieces : List String} (nonempty : pieces ≠ [])
    (way : ∀ s ∈ pieces, WayPiece s) : ("/".intercalate pieces).toList ≠ [] := by
  obtain ⟨first, rest, rfl⟩ := List.exists_cons_of_ne_nil nonempty
  obtain ⟨more, starts⟩ := intercalate_starts first rest
  rw [starts]
  exact List.append_ne_nil_of_left_ne_nil (way first (by simp)).ne_nil more

theorem textPieces_way {pieces : List String} (nonempty : pieces ≠ [])
    (way : ∀ s ∈ pieces, WayPiece s) : textPieces ("/".intercalate pieces) = pieces := by
  obtain ⟨first, last⟩ := intercalate_head_last nonempty way
  exact textPieces_intercalate nonempty (fun s member => (way s member).chars) first
    fun c member => (last c member).2

theorem textPieces_way_slash {pieces : List String} (nonempty : pieces ≠ [])
    (way : ∀ s ∈ pieces, WayPiece s) :
    textPieces ("/".intercalate pieces ++ "/") = pieces ++ [""] := by
  obtain ⟨first, -⟩ := intercalate_head_last nonempty way
  have spelled : "/".intercalate pieces ++ "/" = "/".intercalate (pieces ++ [""]) := by
    rw [String.intercalate_append_of_ne_nil nonempty (by simp)]
    simp
  rw [spelled]
  refine textPieces_intercalate (by simp) (fun s member => ?_) ?_ ?_
  · rcases List.mem_append.mp member with inPieces | isEmpty
    · exact (way s inPieces).chars
    · simp at isEmpty
      simp [isEmpty]
  · rw [← spelled, String.toList_append, List.head?_append,
      Option.or_of_isSome (by simpa using intercalate_way_ne_nil nonempty way)]
    exact first
  · rw [← spelled]
    simp
    decide

theorem join_way {base p : Path} {pieces : List String} (nonempty : pieces ≠ [])
    (way : ∀ s ∈ pieces, WayPiece s)
    (reached : ∀ original, applySegments original base.segments pieces = .ok p.segments)
    {trailing : String} (slash : trailing = "" ∨ trailing = "/") :
    base.join ("/".intercalate pieces ++ trailing) = .ok p := by
  rcases slash with rfl | rfl
  · rw [String.append_empty, join_eq_pieces, textPieces_way nonempty way, reached]
    rfl
  · rw [join_eq_pieces, textPieces_way_slash nonempty way, applySegments_append (reached _),
      applySegments_cons, applyPiece_empty]
    rfl

theorem join_climb {base : Path} {k : Nat} {names : List String} (within : k ≤ base.length)
    (nonempty : List.replicate k ".." ++ names ≠ []) (plain : ∀ s ∈ names, PlainSegment s) :
    base.join ("/".intercalate (List.replicate k ".." ++ names)) =
      .ok ⟨base.segments.take (base.length - k) ++ names⟩ := by
  have reached : ∀ original, applySegments original base.segments (List.replicate k ".." ++ names) =
      .ok (⟨base.segments.take (base.length - k) ++ names⟩ : Path).segments := fun _ => by
    rw [applySegments_climb k within, applySegments_plain plain]
    rfl
  have joined := join_way nonempty (WayPiece.of_climb plain) reached (Or.inl rfl)
  rwa [String.append_empty] at joined

theorem join_append {below inner : Path} (root : Path) {s : String}
    (reached : below.join s = .ok inner) :
    (root.append below).join s = .ok (root.append inner) := by
  rw [join_eq_pieces] at reached ⊢
  cases applied : applySegments s below.segments (textPieces s) with
  | error e =>
    rw [applied] at reached
    cases reached
  | ok r =>
    rw [applied] at reached
    cases reached
    rw [append, applySegments_below root.segments applied]
    rfl

theorem parent_append_of_parent {root root' x y : Path}
    (parent : (root.append x).parent = some (root.append y)) :
    (root'.append x).parent = some (root'.append y) := by
  obtain ⟨xs⟩ := x
  unfold Path.parent at parent ⊢
  simp only [Path.append] at parent ⊢
  by_cases empty : (root.segments ++ xs).isEmpty = true
  · simp [empty] at parent
  simp only [empty, Bool.false_eq_true, if_false, Option.some.injEq, Path.mk.injEq] at parent
  cases xs with
  | nil =>
    rw [List.append_nil] at parent empty
    have lengths := congrArg List.length parent
    simp only [List.length_dropLast, List.length_append] at lengths
    have : root.segments.length ≠ 0 := by simpa using empty
    omega
  | cons s rest =>
    rw [List.dropLast_append_of_ne_nil (List.cons_ne_nil s rest)] at parent
    simp [List.dropLast_append_of_ne_nil (List.cons_ne_nil s rest), List.append_cancel_left parent]

end Monorepo.Path
