import Mathlib
import Monorepo.Proofs.Path.Relative

/-! Round trips of the path algebra. Reading a text trims white space from its two ends only,
so a segment reached through a join, a parent or the rest below a prefix may begin or end with
white space, and a path whose text does so reads back as another path. Every other path reads
back as itself, and so does the way to it from any directory. Cutting a path at a prefix and
appending the rest again gives the path back for every path. -/

namespace Monorepo.Path

open Text

variable {original : String}

/-- The paths the path operations build: read from a text, joined with a text, the parent of
such a path, what remains of one below a prefix, or two of them one after the other. -/
inductive Reachable : Path → Prop
  | parse {text : String} {p : Path} : parse text = .ok p → Reachable p
  | join {base p : Path} {text : String} : Reachable base → base.join text = .ok p → Reachable p
  | parent {p q : Path} : Reachable p → p.parent = some q → Reachable q
  | stripPrefix {p base q : Path} : Reachable p → p.stripPrefix base = some q → Reachable q
  | append {p q : Path} : Reachable p → Reachable q → Reachable (p.append q)

theorem mem_splitOnP {α : Type} {p : α → Bool} {l piece : List α}
    (member : piece ∈ l.splitOnP p) : ∀ c ∈ piece, p c = false ∧ c ∈ l := by
  induction l generalizing piece with
  | nil =>
    rw [List.splitOnP_nil, List.mem_singleton] at member
    simp [member]
  | cons a rest ih =>
    have inRest {c : α} (inner : p c = false ∧ c ∈ rest) : p c = false ∧ c ∈ a :: rest :=
      ⟨inner.1, List.mem_cons_of_mem a inner.2⟩
    rw [List.splitOnP_cons_eq_if_modifyHead] at member
    split at member
    · rcases List.mem_cons.mp member with rfl | later
      · simp
      · exact fun c inPiece => inRest (ih later c inPiece)
    · rename_i kept
      obtain ⟨first, more, cut⟩ := List.exists_cons_of_ne_nil (List.splitOnP_ne_nil p rest)
      rw [cut] at member ih
      rcases List.mem_cons.mp member with rfl | later
      · intro c inPiece
        rcases List.mem_cons.mp inPiece with rfl | inFirst
        · simpa using kept
        · exact inRest (ih (by simp) c inFirst)
      · exact fun c inPiece => inRest (ih (List.mem_cons_of_mem first later) c inPiece)

theorem textPieces_unslashed (t : String) :
    ∀ s ∈ textPieces t, ∀ c ∈ s.toList, c ≠ '/' ∧ c ≠ '\\' := by
  intro s member c inS
  obtain ⟨piece, cut, rfl⟩ := List.mem_map.mp member
  rw [List.splitOn_eq_splitOnP] at cut
  obtain ⟨notSlash, inText⟩ := mem_splitOnP cut c (by simpa using inS)
  refine ⟨by simpa using notSlash, fun backslash => ?_⟩
  subst backslash
  obtain ⟨d, -, mapped⟩ := List.mem_map.mp ((List.dropWhile_sublist _).subset inText)
  by_cases isBackslash : d = '\\' <;> simp_all

theorem applyPiece_segments {acc acc' : List String} {s : String}
    (named : ∀ x ∈ acc, Segment x) (unslashed : ∀ c ∈ s.toList, c ≠ '/' ∧ c ≠ '\\')
    (applied : applyPiece original acc s = .ok acc') : ∀ x ∈ acc', Segment x := by
  by_cases skip : (s == "" || s == ".") = true
  · simp only [applyPiece, skip, if_true, Except.ok.injEq] at applied
    exact applied ▸ named
  by_cases up : (s == "..") = true
  · have climbs : s = ".." := by simpa using up
    subst climbs
    cases acc with
    | nil => cases applied
    | cons a rest =>
      rw [applyPiece_up (List.cons_ne_nil a rest), Except.ok.injEq] at applied
      exact applied ▸ fun x member => named x ((List.dropLast_sublist _).subset member)
  by_cases nul : s.contains (Char.ofNat 0) = true
  · simp [applyPiece, skip, up, nul] at applied
  simp only [applyPiece, skip, up, nul, Bool.false_eq_true, if_false, Except.ok.injEq] at applied
  subst applied
  have fresh : Segment s := by
    simp only [Bool.or_eq_true, beq_iff_eq, not_or] at skip
    refine ⟨skip.1, skip.2, by simpa using up, fun c member =>
      ⟨(unslashed c member).1, (unslashed c member).2, ?_⟩⟩
    rintro rfl
    simp [String.contains_char_eq, member] at nul
  intro x member
  rcases List.mem_append.mp member with old | new
  · exact named x old
  · exact (List.mem_singleton.mp new) ▸ fresh

theorem applySegments_segments_of_ok {acc r pieces : List String}
    (named : ∀ x ∈ acc, Segment x) (unslashed : ∀ s ∈ pieces, ∀ c ∈ s.toList, c ≠ '/' ∧ c ≠ '\\')
    (reached : applySegments original acc pieces = .ok r) : ∀ x ∈ r, Segment x := by
  induction pieces generalizing acc with
  | nil =>
    simp only [applySegments, Except.ok.injEq] at reached
    exact reached ▸ named
  | cons s rest ih =>
    rw [applySegments_cons] at reached
    obtain ⟨acc', piece, tail⟩ := except_bind_eq_ok.mp reached
    exact ih (applyPiece_segments named (unslashed s (by simp)) piece)
      (fun s' member => unslashed s' (by simp [member])) tail

theorem WellFormed.join {base p : Path} {text : String} (named : base.WellFormed)
    (joined : base.join text = .ok p) : p.WellFormed := by
  rw [join_eq_pieces, except_map_eq_ok] at joined
  obtain ⟨r, reached, rfl⟩ := joined
  exact applySegments_segments_of_ok named (textPieces_unslashed text) reached

theorem Reachable.wellFormed {p : Path} (reachable : p.Reachable) : p.WellFormed := by
  induction reachable with
  | parse read => exact WellFormed.join (fun s member => by simp [root] at member) read
  | join _ joined named => exact named.join joined
  | parent _ up named =>
    unfold Path.parent at up
    split at up
    · cases up
    · cases up
      exact fun s member => named s ((List.dropLast_sublist _).subset member)
  | stripPrefix _ cut named =>
    unfold Path.stripPrefix at cut
    split at cut
    · cases cut
      exact fun s member => named s (List.mem_of_mem_drop member)
    · cases cut
  | append _ _ left right =>
    exact fun s member => (List.mem_append.mp member).elim (left s) (right s)

theorem append_stripPrefix {p base : Path} (starts : p.startsWith base = true) :
    (p.stripPrefix base).map base.append = some p := by
  obtain ⟨rest, spelled⟩ := startsWith_iff.mp starts
  simp only [stripPrefix, starts, if_true, Option.map_some, Option.some.injEq]
  exact eq_of_segments (by simp [append, ← spelled])

/-! ### Reading a path's text back

A text read as a path loses the white space at its two ends, and then every piece adds at most
its own characters and one separator to the path reached. Counting so, a text that loses a
character cannot read back as the path it spells. -/

/-- The characters of segments counted with one separator each: the length of their text,
plus one. -/
def textWeight (segments : List String) : Nat := (segments.map fun s => s.length + 1).sum

@[simp] theorem textWeight_nil : textWeight [] = 0 := rfl

@[simp] theorem textWeight_append (a b : List String) :
    textWeight (a ++ b) = textWeight a + textWeight b := by
  simp [textWeight]

@[simp] theorem textWeight_singleton (s : String) : textWeight [s] = s.length + 1 := by
  simp [textWeight]

theorem length_intercalate_singleton {α : Type} (x : α) {ls : List (List α)} (nonempty : ls ≠ []) :
    ([x].intercalate ls).length + 1 = (ls.map fun l => l.length + 1).sum := by
  induction ls with
  | nil => exact absurd rfl nonempty
  | cons l rest ih =>
    cases rest with
    | nil => simp
    | cons l' rest =>
      rw [List.intercalate_cons_cons, List.map_cons, List.sum_cons, ← ih (List.cons_ne_nil _ _)]
      simp only [List.length_append, List.length_singleton]
      omega

theorem textWeight_render {p : Path} (nonempty : p.segments ≠ []) :
    textWeight p.segments = p.render.length + 1 := by
  have spelled : p.render = "/".intercalate p.segments := by simp [render, nonempty]
  have slash : "/".toList = ['/'] := rfl
  rw [spelled, ← String.length_toList, String.toList_intercalate, slash,
    length_intercalate_singleton '/' (by simpa using nonempty)]
  simp [textWeight, Function.comp_def, String.length_toList]

theorem textWeight_splitOn (l : List Char) :
    textWeight ((l.splitOn '/').map String.ofList) = l.length + 1 := by
  have whole : (['/'].intercalate (l.splitOn '/')).length = l.length :=
    congrArg List.length (List.intercalate_splitOn '/')
  rw [← whole, length_intercalate_singleton '/' (by simp [List.splitOn_eq_splitOnP,
    List.splitOnP_ne_nil])]
  simp [textWeight, Function.comp_def]

theorem trimBlank_sublist (t : String) : List.Sublist (trimBlank t).toList t.toList := by
  simp only [trimBlank, String.toList_ofList]
  exact (List.reverse_sublist.mpr (List.dropWhile_sublist _)).trans
    (by simpa using List.dropWhile_sublist _)

theorem trimBlank_eq_of_length_le {t : String} (long : t.length ≤ (trimBlank t).length) :
    trimBlank t = t :=
  String.ext ((trimBlank_sublist t).eq_of_length (Nat.le_antisymm (trimBlank_sublist t).length_le
    (by simpa only [String.length_toList] using long)))

theorem textWeight_textPieces (t : String) : textWeight (textPieces t) ≤ (trimBlank t).length + 1 := by
  rw [textPieces, textWeight_splitOn, ← String.length_toList]
  have dropped := (List.dropWhile_sublist (· == '/')
    (l := (trimBlank t).toList.map fun c => if c == '\\' then '/' else c)).length_le
  simp only [List.length_map] at dropped
  omega

theorem textWeight_dropLast (acc : List String) : textWeight acc.dropLast ≤ textWeight acc := by
  rcases List.eq_nil_or_concat acc with rfl | ⟨init, last, rfl⟩
  · simp
  · simp

theorem applyPiece_textWeight {acc acc' : List String} {s : String}
    (applied : applyPiece original acc s = .ok acc') :
    textWeight acc' ≤ textWeight acc + (s.length + 1) := by
  by_cases skip : (s == "" || s == ".") = true
  · simp only [applyPiece, skip, if_true, Except.ok.injEq] at applied
    subst applied
    omega
  by_cases up : (s == "..") = true
  · have climbs : s = ".." := by simpa using up
    subst climbs
    cases acc with
    | nil => cases applied
    | cons a rest =>
      rw [applyPiece_up (List.cons_ne_nil a rest), Except.ok.injEq] at applied
      subst applied
      have lighter := textWeight_dropLast (a :: rest)
      omega
  by_cases nul : s.contains (Char.ofNat 0) = true
  · simp [applyPiece, skip, up, nul] at applied
  simp only [applyPiece, skip, up, nul, Bool.false_eq_true, if_false, Except.ok.injEq] at applied
  simp [← applied]

theorem applySegments_textWeight {acc r pieces : List String}
    (reached : applySegments original acc pieces = .ok r) :
    textWeight r ≤ textWeight acc + textWeight pieces := by
  induction pieces generalizing acc with
  | nil =>
    simp only [applySegments, Except.ok.injEq] at reached
    simp [reached]
  | cons s rest ih =>
    rw [applySegments_cons] at reached
    obtain ⟨acc', piece, tail⟩ := except_bind_eq_ok.mp reached
    have first := applyPiece_textWeight piece
    have later := ih tail
    simp only [textWeight, List.map_cons, List.sum_cons] at first later ⊢
    omega

theorem textWeight_of_join {base p : Path} {text : String} (joined : base.join text = .ok p) :
    textWeight p.segments ≤ textWeight base.segments + (trimBlank text).length + 1 := by
  rw [join_eq_pieces, except_map_eq_ok] at joined
  obtain ⟨r, reached, rfl⟩ := joined
  have gained := applySegments_textWeight reached
  have pieces := textWeight_textPieces text
  simp only
  omega

theorem blank_ends {t : String} (trimmed : trimBlank t = t) :
    (∀ c ∈ t.toList.head?, isBlank c = false) ∧ ∀ c ∈ t.toList.getLast?, isBlank c = false := by
  have sameLength : (trimBlank t).toList.length = t.toList.length := by rw [trimmed]
  have outer : (trimBlank t).toList.length ≤ (t.toList.dropWhile isBlank).length := by
    simp only [trimBlank, String.toList_ofList, List.length_reverse]
    exact ((List.dropWhile_sublist _).length_le).trans (by simp)
  constructor
  · intro c member
    by_contra blank
    obtain ⟨rest, spelled⟩ : ∃ rest, t.toList = c :: rest := by
      cases chars : t.toList with
      | nil => simp [chars] at member
      | cons d rest => simp_all
    rw [spelled, List.dropWhile_cons_of_pos (by simpa using blank)] at outer
    have := (List.dropWhile_sublist isBlank (l := rest)).length_le
    simp only [spelled, List.length_cons] at sameLength
    omega
  · intro c member
    by_contra blank
    have kept := List.takeWhile_append_dropWhile (p := isBlank) (l := t.toList)
    rcases List.eq_nil_or_concat (t.toList.dropWhile isBlank) with empty | ⟨init, last, spelled⟩
    · rw [empty, List.length_nil] at outer
      have : 0 < t.toList.length := List.length_pos_of_mem (List.mem_of_getLast? member)
      omega
    · rw [List.concat_eq_append] at spelled
      have lastIsC : last = c := by
        rw [← kept, spelled, ← List.append_assoc, List.getLast?_concat] at member
        simpa using member
      have inner : (trimBlank t).toList.length ≤ init.length := by
        simp only [trimBlank, String.toList_ofList, List.length_reverse, spelled,
          List.reverse_append, List.reverse_singleton, List.singleton_append]
        rw [List.dropWhile_cons_of_pos (by simpa [lastIsC] using blank)]
        exact ((List.dropWhile_sublist _).length_le).trans (by simp)
      have whole := (List.dropWhile_sublist isBlank (l := t.toList)).length_le
      rw [spelled, List.length_append, List.length_singleton] at whole
      omega

theorem Segment.ne_nil {s : String} (named : Segment s) : s.toList ≠ [] := fun empty =>
  named.1 (String.toList_inj.mp (by simpa using empty))

theorem head_intercalate_unslashed {pieces : List String} (nonempty : pieces ≠ [])
    (filled : ∀ s ∈ pieces, s.toList ≠ [])
    (unslashed : ∀ s ∈ pieces, ∀ c ∈ s.toList, c ≠ '/' ∧ c ≠ '\\') :
    ∀ c ∈ ("/".intercalate pieces).toList.head?, c ≠ '/' := by
  obtain ⟨first, rest, rfl⟩ := List.exists_cons_of_ne_nil nonempty
  obtain ⟨more, starts⟩ := intercalate_starts first rest
  rw [starts, List.head?_append, Option.or_of_isSome (by simpa using filled first (by simp))]
  intro c member
  exact (unslashed first (by simp) c (List.mem_of_mem_head? member)).1

theorem trimBlank_dot : trimBlank "." = "." :=
  trimBlank_eq_self (by simp; decide) (by simp; decide)

theorem join_dot (base : Path) : base.join "." = .ok base := by
  have reached : ∀ original, applySegments original base.segments ["."] = .ok base.segments :=
    fun _ => by simp [applySegments]
  have joined := join_way (List.cons_ne_nil "." []) (by simp [WayPiece]) reached (Or.inl rfl)
  simpa using joined

theorem parse_dot : parse "." = .ok root := join_dot root

theorem parse_render {p : Path} (named : p.WellFormed) (unpadded : trimBlank p.render = p.render) :
    parse p.render = .ok p := by
  by_cases empty : p.segments = []
  · obtain ⟨segments⟩ := p
    simp only at empty
    subst empty
    exact parse_dot
  have spelled : p.render = "/".intercalate p.segments := by simp [render, empty]
  have chars : ∀ s ∈ p.segments, ∀ c ∈ s.toList, c ≠ '/' ∧ c ≠ '\\' :=
    fun s member c inS => ⟨((named s member).2.2.2 c inS).1, ((named s member).2.2.2 c inS).2.1⟩
  obtain ⟨first, last⟩ := blank_ends unpadded
  rw [spelled] at first last ⊢
  have cut : textPieces ("/".intercalate p.segments) = p.segments :=
    textPieces_intercalate empty chars (fun c member =>
      ⟨head_intercalate_unslashed empty (fun s member => (named s member).ne_nil) chars c member,
        first c member⟩) last
  rw [parse, join_eq_pieces, cut, applySegments_segments named]
  rfl

theorem trimBlank_render_of_parse {p : Path} (read : parse p.render = .ok p) :
    trimBlank p.render = p.render := by
  by_cases empty : p.segments = []
  · simpa [render, empty] using trimBlank_dot
  have weighed := textWeight_of_join read
  rw [textWeight_render empty] at weighed
  exact trimBlank_eq_of_length_le (by simpa [root, textWeight] using weighed)

theorem parse_render_iff {p : Path} (named : p.WellFormed) :
    parse p.render = .ok p ↔ trimBlank p.render = p.render :=
  ⟨trimBlank_render_of_parse, parse_render named⟩

theorem commonLength_le_left (a b : List String) : commonLength a b ≤ a.length := by
  induction a generalizing b with
  | nil => simp [commonLength]
  | cons x xs ih =>
    cases b with
    | nil => simp [commonLength]
    | cons y ys =>
      simp only [commonLength, List.length_cons]
      split
      · exact Nat.succ_le_succ (ih ys)
      · omega

theorem segments_eq_shared (base target : Path) :
    target.segments = base.segments.take (commonLength target.segments base.segments) ++
      target.segments.drop (commonLength target.segments base.segments) := by
  rw [← take_commonLength, List.take_append_drop]

theorem wayPieces_segments {base target : Path} (named : target.WellFormed) :
    ∀ s ∈ wayPieces base target, s = ".." ∨ Segment s := by
  intro s member
  rcases List.mem_append.mp member with up | down
  · exact .inl (List.eq_of_mem_replicate up)
  · exact .inr (named s (List.mem_of_mem_drop down))

theorem eq_of_wayPieces_nil {base target : Path} (none : wayPieces base target = []) :
    target = base := by
  obtain ⟨climb, rest⟩ := List.append_eq_nil_iff.mp none
  have stays : base.length - commonLength target.segments base.segments = 0 := by
    simpa using climb
  have reached : target.segments.length ≤ commonLength target.segments base.segments := by
    simpa using rest
  have within := commonLength_le_right target.segments base.segments
  have bounded := commonLength_le_left target.segments base.segments
  have shared := segments_eq_shared base target
  simp only [Path.length] at stays
  rw [List.take_of_length_le (by omega), List.drop_of_length_le reached, List.append_nil] at shared
  exact eq_of_segments shared

theorem join_relativeTo {base target : Path} (named : target.WellFormed)
    (unpadded : trimBlank (target.relativeTo base) = target.relativeTo base) :
    base.join (target.relativeTo base) = .ok target := by
  rw [relativeTo_eq_way] at unpadded ⊢
  split
  · rename_i none
    rw [eq_of_wayPieces_nil (List.isEmpty_iff.mp none)]
    exact join_dot base
  rename_i some
  rw [if_neg some] at unpadded
  have nonempty : wayPieces base target ≠ [] := by simpa using some
  have pieces : ∀ s ∈ wayPieces base target, s = ".." ∨ Segment s := wayPieces_segments named
  have filled : ∀ s ∈ wayPieces base target, s.toList ≠ [] := fun s member =>
    (pieces s member).elim (fun up => by simp [up]) Segment.ne_nil
  have chars : ∀ s ∈ wayPieces base target, ∀ c ∈ s.toList, c ≠ '/' ∧ c ≠ '\\' := by
    intro s member c inS
    rcases pieces s member with rfl | segment
    · simp at inS
      subst inS
      decide
    · exact ⟨(segment.2.2.2 c inS).1, (segment.2.2.2 c inS).2.1⟩
  obtain ⟨first, last⟩ := blank_ends unpadded
  have cut := textPieces_intercalate nonempty chars (fun c member =>
    ⟨head_intercalate_unslashed nonempty filled chars c member, first c member⟩) last
  rw [join_eq_pieces, cut, applySegments_way base target named]
  rfl

theorem dropWhile_append_cons {α : Type} {p : α → Bool} (a rest : List α) {b : α}
    (kept : p b = false) : (a ++ b :: rest).dropWhile p = a.dropWhile p ++ b :: rest := by
  induction a with
  | nil => simp [List.dropWhile_cons_of_neg, kept]
  | cons x xs ih =>
    by_cases dropped : p x = true
    · simp [List.dropWhile_cons_of_pos dropped, ih]
    · simp [List.dropWhile_cons_of_neg dropped]

/-- The text that climbs `k` levels: `..` pieces joined by `/`. -/
def climbText (k : Nat) : String := "/".intercalate (List.replicate k "..")

theorem climbText_chars {k : Nat} (climbs : 0 < k) :
    (climbText k).toList.head? = some '.' ∧ (∀ c ∈ (climbText k).toList, c = '.' ∨ c = '/') ∧
      ((climbText k).toList.splitOn '/').map String.ofList = List.replicate k ".." := by
  obtain ⟨j, rfl⟩ := Nat.exists_eq_add_of_lt climbs
  refine ⟨?_, ?_, ?_⟩
  · obtain ⟨more, starts⟩ := intercalate_starts ".." (List.replicate j "..")
    rw [climbText, show 0 + j + 1 = j + 1 by omega, List.replicate_succ, starts]
    rfl
  · exact forall_mem_intercalate (.inr rfl) fun s member c inS => by
      rw [List.eq_of_mem_replicate member] at inS
      simp at inS
      exact .inl inS
  · have slash : "/".toList = ['/'] := rfl
    rw [climbText, String.toList_intercalate, slash, List.splitOn_intercalate]
    · simp
    · intro l member
      obtain ⟨s, inS, rfl⟩ := List.mem_map.mp member
      rw [List.eq_of_mem_replicate inS]
      decide
    · simp

theorem climbText_append_toList (k : Nat) (names : String) :
    (climbText k ++ "/" ++ names).toList = (climbText k).toList ++ '/' :: names.toList := by
  simp [String.toList_append, show "/".toList = ['/'] from rfl]

theorem climbText_toList_cons {k : Nat} (climbs : 0 < k) :
    ∃ dots, (climbText k).toList = '.' :: dots := by
  obtain ⟨starts, -⟩ := climbText_chars climbs
  cases text : (climbText k).toList with
  | nil => simp [text] at starts
  | cons c rest => simp_all

theorem trimBlank_climb {k : Nat} (climbs : 0 < k) (names : String) :
    trimBlank (climbText k ++ "/" ++ names) = climbText k ++ "/" ++ trimBlankEnd names := by
  obtain ⟨dots, spelled⟩ := climbText_toList_cons climbs
  have front : ((climbText k).toList ++ '/' :: names.toList).dropWhile isBlank =
      (climbText k).toList ++ '/' :: names.toList := by
    rw [spelled, List.cons_append]
    exact List.dropWhile_cons_of_neg (by decide)
  have back : ((climbText k).toList ++ '/' :: names.toList).reverse.dropWhile isBlank =
      names.toList.reverse.dropWhile isBlank ++ '/' :: (climbText k).toList.reverse := by
    simpa using dropWhile_append_cons names.toList.reverse (climbText k).toList.reverse
      (p := isBlank) (b := '/') (by decide)
  refine String.ext ?_
  rw [trimBlank, String.toList_ofList, climbText_append_toList k names, front, back,
    climbText_append_toList]
  simp [trimBlankEnd]

theorem textPieces_climb {k : Nat} (climbs : 0 < k) {names : String}
    (unslashed : ∀ c ∈ names.toList, c ≠ '\\') :
    textPieces (climbText k ++ "/" ++ names) =
      List.replicate k ".." ++ ((trimBlankEnd names).toList.splitOn '/').map String.ofList := by
  obtain ⟨-, chars, cut⟩ := climbText_chars climbs
  obtain ⟨dots, spelled⟩ := climbText_toList_cons climbs
  have trimmed : List.Sublist (trimBlankEnd names).toList names.toList := by
    simp only [trimBlankEnd, String.toList_ofList]
    simpa using (List.dropWhile_sublist isBlank (l := names.toList.reverse)).reverse
  have spelledTrim : (trimBlank (climbText k ++ "/" ++ names)).toList =
      (climbText k).toList ++ '/' :: (trimBlankEnd names).toList := by
    rw [trimBlank_climb climbs, climbText_append_toList]
  have kept : ∀ c ∈ (trimBlank (climbText k ++ "/" ++ names)).toList, c ≠ '\\' := by
    intro c member
    rw [spelledTrim] at member
    rcases List.mem_append.mp member with inClimb | inRest
    · rcases chars c inClimb with rfl | rfl <;> decide
    · rcases List.mem_cons.mp inRest with rfl | inNames
      · decide
      · exact unslashed c (trimmed.subset inNames)
  have unmapped : ((trimBlank (climbText k ++ "/" ++ names)).toList.map fun c =>
      if c == '\\' then '/' else c) = (trimBlank (climbText k ++ "/" ++ names)).toList :=
    (List.map_congr_left fun c member => by simp [kept c member]).trans (List.map_id _)
  have undropped : ((climbText k).toList ++ '/' :: (trimBlankEnd names).toList).dropWhile
      (· == '/') = (climbText k).toList ++ '/' :: (trimBlankEnd names).toList := by
    rw [spelled, List.cons_append]
    exact List.dropWhile_cons_of_neg (by decide)
  rw [textPieces, unmapped, spelledTrim, undropped, List.splitOn_eq_splitOnP,
    List.splitOnP_append_cons _ _ (by decide), List.map_append, ← List.splitOn_eq_splitOnP,
    ← List.splitOn_eq_splitOnP, cut]

theorem trimBlankEnd_sublist (t : String) : List.Sublist (trimBlankEnd t).toList t.toList := by
  simp only [trimBlankEnd, String.toList_ofList]
  simpa using (List.dropWhile_sublist isBlank (l := t.toList.reverse)).reverse

theorem trimBlank_relativeTo_of_join {base target : Path} (named : target.WellFormed)
    (joined : base.join (target.relativeTo base) = .ok target) :
    trimBlank (target.relativeTo base) = target.relativeTo base := by
  rw [relativeTo_eq_way] at joined ⊢
  split
  · exact trimBlank_dot
  rename_i some
  rw [if_neg some] at joined
  have nonempty : wayPieces base target ≠ [] := by simpa using some
  have spelled := segments_eq_shared base target
  have within := commonLength_le_right target.segments base.segments
  have way : wayPieces base target = List.replicate (base.length -
      commonLength target.segments base.segments) ".." ++
      target.segments.drop (commonLength target.segments base.segments) := rfl
  generalize commonLength target.segments base.segments = c at spelled within way
  rw [way] at joined nonempty ⊢
  have weighTarget : textWeight target.segments =
      textWeight (base.segments.take c) + textWeight (target.segments.drop c) := by
    rw [← textWeight_append, ← spelled]
  have weighRest (descends : target.segments.drop c ≠ []) :
      textWeight (target.segments.drop c) = ("/".intercalate (target.segments.drop c)).length + 1 := by
    simpa [render, descends] using textWeight_render (p := ⟨target.segments.drop c⟩) descends
  by_cases level : base.length - c = 0
  · rw [level, List.replicate_zero, List.nil_append] at joined nonempty ⊢
    have whole : base.segments.take c = base.segments :=
      List.take_of_length_le (by simp only [Path.length] at level; omega)
    have weighed := textWeight_of_join joined
    rw [weighTarget, whole, weighRest nonempty] at weighed
    exact trimBlank_eq_of_length_le (by omega)
  have climbs : 0 < base.length - c := Nat.pos_of_ne_zero level
  by_cases descends : target.segments.drop c = []
  · rw [descends, List.append_nil]
    obtain ⟨-, chars, -⟩ := climbText_chars climbs
    have noBlank : ∀ ch ∈ (climbText (base.length - c)).toList, isBlank ch = false := by
      intro ch member
      rcases chars ch member with rfl | rfl <;> decide
    exact trimBlank_eq_self (fun ch member => noBlank ch (List.mem_of_mem_head? member))
      fun ch member => noBlank ch (List.mem_of_getLast? member)
  have split : "/".intercalate (List.replicate (base.length - c) ".." ++ target.segments.drop c) =
      climbText (base.length - c) ++ "/" ++ "/".intercalate (target.segments.drop c) :=
    String.intercalate_append_of_ne_nil (by simpa using level) descends
  rw [split] at joined ⊢
  have unslashed : ∀ ch ∈ ("/".intercalate (target.segments.drop c)).toList, ch ≠ '\\' :=
    forall_mem_intercalate (by decide) fun s member ch inS =>
      ((named s (List.mem_of_mem_drop member)).2.2.2 ch inS).2.1
  have climbed : base.segments.length - (base.length - c) = c := by
    simp only [Path.length]
    omega
  rw [join_eq_pieces, textPieces_climb climbs unslashed,
    applySegments_climb _ (by simp [Path.length]), except_map_eq_ok] at joined
  obtain ⟨r, reached, same⟩ := joined
  rw [show r = target.segments from congrArg Path.segments same, climbed] at reached
  have weighed := applySegments_textWeight reached
  rw [textWeight_splitOn, weighTarget, weighRest descends] at weighed
  have kept : trimBlankEnd ("/".intercalate (target.segments.drop c)) =
      "/".intercalate (target.segments.drop c) :=
    String.ext ((trimBlankEnd_sublist _).eq_of_length (Nat.le_antisymm
      (trimBlankEnd_sublist _).length_le (by simp only [String.length_toList] at weighed ⊢; omega)))
  rw [trimBlank_climb climbs, kept]

theorem join_relativeTo_iff {base target : Path} (named : target.WellFormed) :
    base.join (target.relativeTo base) = .ok target ↔
      trimBlank (target.relativeTo base) = target.relativeTo base :=
  ⟨trimBlank_relativeTo_of_join named, join_relativeTo named⟩

/-- The round trips of the path algebra at three paths: the way from `base` to `target` reads back
as `target` exactly when its text has no white space at either end; cutting `p` at `base` and
appending the rest to `base` gives `p` back; and `p` reads back from its text exactly when that
text has no white space at either end. -/
def RoundTrips (base target p : Path) : Prop :=
  (base.join (target.relativeTo base) = .ok target ↔
      trimBlank (target.relativeTo base) = target.relativeTo base) ∧
    (p.startsWith base = true → (p.stripPrefix base).map base.append = some p) ∧
    (parse p.render = .ok p ↔ trimBlank p.render = p.render)

/-- The round trips hold from every directory to every path the path operations build. -/
theorem Reachable.roundTrips (base : Path) {target p : Path} (reachesTarget : target.Reachable)
    (reaches : p.Reachable) : RoundTrips base target p :=
  ⟨join_relativeTo_iff reachesTarget.wellFormed, append_stripPrefix,
    parse_render_iff reaches.wellFormed⟩

/-- The segment `a ` that reading `a /` leaves: reachable, with the round trips as stated. -/
theorem Reachable.roundTrips_of_padded_segment :
    (⟨["a "]⟩ : Path).Reachable ∧ RoundTrips root ⟨["a "]⟩ ⟨["a "]⟩ :=
  have reached : (⟨["a "]⟩ : Path).Reachable := .parse (show Path.parse "a /" = .ok ⟨["a "]⟩ by cbv)
  ⟨reached, Reachable.roundTrips root reached reached⟩

/-- Reading `a /` keeps the blank of its segment `a `, and the text of that path reads back as
`a`, another path. -/
theorem padded_segment_reads_back_trimmed :
    parse "a /" = .ok ⟨["a "]⟩ ∧ parse (⟨["a "]⟩ : Path).render = .ok ⟨["a"]⟩ ∧
      (⟨["a"]⟩ : Path) ≠ ⟨["a "]⟩ :=
  ⟨by cbv, by cbv, by decide⟩

end Monorepo.Path
