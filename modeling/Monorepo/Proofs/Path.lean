import Mathlib.Data.String.Basic
import Monorepo.Path

/-! Workspace paths as the staged tree stores them. A plain segment is one that a path's text
can spell: it reads back as itself, so joining it to a directory adds exactly that segment, and
segments joined by `/` read back as the same list. Paths sort lexicographically by segments. -/

namespace Monorepo.Path

open Text

/-- A segment that a path's text spells as it is: not empty, not `.` or `..`, free of `/`, `\`
and NUL, and with no white space at either end. -/
def PlainSegment (s : String) : Prop :=
  s ≠ "" ∧ s ≠ "." ∧ s ≠ ".." ∧ (∀ c ∈ s.toList, c ≠ '/' ∧ c ≠ '\\' ∧ c ≠ Char.ofNat 0) ∧
    (∀ c ∈ s.toList.head?, isBlank c = false) ∧ ∀ c ∈ s.toList.getLast?, isBlank c = false

/- The character tests name their list and option instances: a blanket instance deciding a
statement about every character would otherwise be found first. -/
instance : DecidablePred PlainSegment := fun s =>
  have : Decidable (∀ c ∈ s.toList, c ≠ '/' ∧ c ≠ '\\' ∧ c ≠ Char.ofNat 0) :=
    List.decidableBAll _ _
  have : Decidable (∀ c ∈ s.toList.head?, isBlank c = false) := Option.decidableForallMem _
  have : Decidable (∀ c ∈ s.toList.getLast?, isBlank c = false) := Option.decidableForallMem _
  inferInstanceAs (Decidable (_ ∧ _))

/-- A path all of whose segments are plain. -/
def Plain (p : Path) : Prop := ∀ s ∈ p.segments, PlainSegment s

instance : DecidablePred Plain := fun p => List.decidableBAll _ p.segments

/-- A segment that reading a text can produce: not empty, not `.` or `..`, and free of `/`, `\`
and NUL. Unlike a plain segment it may begin or end with white space. -/
def Segment (s : String) : Prop :=
  s ≠ "" ∧ s ≠ "." ∧ s ≠ ".." ∧ ∀ c ∈ s.toList, c ≠ '/' ∧ c ≠ '\\' ∧ c ≠ Char.ofNat 0

/-- A path all of whose segments reading a text can produce. -/
def WellFormed (p : Path) : Prop := ∀ s ∈ p.segments, Segment s

theorem PlainSegment.segment {s : String} (plain : PlainSegment s) : Segment s :=
  ⟨plain.1, plain.2.1, plain.2.2.1, plain.2.2.2.1⟩

theorem Plain.wellFormed {p : Path} (plain : p.Plain) : p.WellFormed :=
  fun s member => (plain s member).segment

/-- `q` lies strictly below `p`: `p`'s segments begin `q`'s, and `q` has more of them. -/
def IsBelow (q p : Path) : Prop := p.segments <+: q.segments ∧ p.length < q.length

instance (q p : Path) : Decidable (q.IsBelow p) :=
  inferInstanceAs (Decidable (_ ∧ _))

/-- The strict ancestors of a path, the root first. -/
def ancestors (p : Path) : List Path := (List.range p.length).map fun k => ⟨p.segments.take k⟩

theorem mem_ancestors {a p : Path} : a ∈ p.ancestors ↔ p.IsBelow a := by
  constructor
  · intro member
    obtain ⟨k, shorter, rfl⟩ := List.mem_map.mp member
    have shorter : k < p.length := List.mem_range.mp shorter
    exact ⟨List.take_prefix k _, by simp [length] at shorter ⊢; omega⟩
  · rintro ⟨⟨rest, spelled⟩, longer⟩
    refine List.mem_map.mpr ⟨a.length, List.mem_range.mpr longer, ?_⟩
    simp [length, ← spelled]

theorem IsBelow.trans {a b c : Path} (lower : a.IsBelow b) (upper : b.IsBelow c) : a.IsBelow c :=
  ⟨upper.1.trans lower.1, Nat.lt_trans upper.2 lower.2⟩

theorem eq_of_segments {p q : Path} (same : p.segments = q.segments) : p = q := by
  cases p
  cases q
  simp_all

theorem ancestor_cases {a p f : Path} (above : a ∈ f.ancestors) (under : f.IsBelow p) :
    a ∈ p.ancestors ∨ a = p ∨ a.IsBelow p := by
  obtain ⟨aPrefix, aShorter⟩ := mem_ancestors.mp above
  rcases Nat.lt_trichotomy a.length p.length with shorter | same | longer
  · exact .inl (mem_ancestors.mpr
      ⟨List.prefix_of_prefix_length_le aPrefix under.1 (Nat.le_of_lt shorter), shorter⟩)
  · exact .inr (.inl (eq_of_segments (List.IsPrefix.eq_of_length
      (List.prefix_of_prefix_length_le aPrefix under.1 (Nat.le_of_eq same)) same)))
  · exact .inr (.inr
      ⟨List.prefix_of_prefix_length_le under.1 aPrefix (Nat.le_of_lt longer), longer⟩)

@[simp] theorem child_segments (p : Path) (name : String) :
    (p.child name).segments = p.segments ++ [name] := rfl

theorem startsWith_iff {p base : Path} : p.startsWith base = true ↔ base.segments <+: p.segments :=
  List.isPrefixOf_iff_prefix

theorem startsWith_child_of_isRoot {root f : Path} {n : String} (isRoot : root.isRoot = true) :
    f.startsWith (root.child n) = true ↔ f.first = some n := by
  have empty : root.segments = [] := by simpa [Path.isRoot] using isRoot
  obtain ⟨segments⟩ := f
  cases segments with
  | nil => simp [startsWith, first, child, empty]
  | cons m rest =>
    simp only [startsWith, first, child, empty, List.nil_append, List.isPrefixOf, List.head?_cons,
      Option.some.injEq, Bool.and_eq_true, beq_iff_eq]
    simp [eq_comm]

theorem eq_child_of_parent {p d : Path} {n : String} (parent : p.parent = some d)
    (name : p.fileName = some n) : p = d.child n := by
  obtain ⟨segments⟩ := p
  rcases List.eq_nil_or_concat segments with rfl | ⟨init, last, rfl⟩
  · simp [Path.parent] at parent
  · simp [Path.parent, Path.fileName] at parent name
    simp [← parent, ← name, child]

@[simp] theorem parent_child (p : Path) (name : String) : (p.child name).parent = some p := by
  simp [parent, child]

@[simp] theorem child_length (p : Path) (name : String) :
    (p.child name).length = p.length + 1 := by
  simp [child, length]

theorem take_length_of_prefix {a q : Path} (above : a.segments <+: q.segments) :
    (⟨q.segments.take a.length⟩ : Path) = a := by
  obtain ⟨rest, spelled⟩ := above
  cases a
  simp [length, ← spelled]

theorem isBelow_of_prefix {a q : Path} (above : a.segments <+: q.segments) (different : a ≠ q) :
    q.IsBelow a := by
  refine ⟨above, ?_⟩
  have shorter := above.length_le
  have unequal : a.length ≠ q.length := fun same =>
    different (eq_of_segments (above.eq_of_length same))
  simp only [length] at unequal ⊢
  omega

theorem child_prefix_iff {d q : Path} {n : String} :
    (d.child n).segments <+: q.segments ↔
      d.segments <+: q.segments ∧ q.segments[d.length]? = some n := by
  constructor
  · rintro ⟨rest, spelled⟩
    rw [← spelled]
    exact ⟨⟨n :: rest, by simp⟩, by simp [length]⟩
  · rintro ⟨⟨rest, spelled⟩, named⟩
    rw [← spelled] at named ⊢
    cases rest with
    | nil => simp [length] at named
    | cons m rest =>
      simp only [length, List.getElem?_append_right (Nat.le_refl _), Nat.sub_self,
        List.getElem?_cons_zero, Option.some.injEq] at named
      subst named
      exact ⟨rest, by simp⟩

theorem PlainSegment.ne_nil {s : String} (plain : PlainSegment s) : s.toList ≠ [] := by
  intro empty
  exact plain.1 (String.toList_inj.mp (by simpa using empty))

theorem trimBlank_eq_self {s : String} (first : ∀ c ∈ s.toList.head?, isBlank c = false)
    (last : ∀ c ∈ s.toList.getLast?, isBlank c = false) : trimBlank s = s := by
  have front : s.toList.dropWhile isBlank = s.toList := by
    cases chars : s.toList with
    | nil => rfl
    | cons c rest =>
      have kept : isBlank c = false := first c (by simp [chars])
      simp [kept]
  have back : s.toList.reverse.dropWhile isBlank = s.toList.reverse := by
    cases chars : s.toList.reverse with
    | nil => rfl
    | cons c rest =>
      have kept : isBlank c = false := last c (by rw [← List.head?_reverse, chars]; rfl)
      simp [kept]
  simp [trimBlank, front, back]

theorem applySegments_segments {original : String} {acc rest : List String}
    (named : ∀ s ∈ rest, Segment s) :
    applySegments original acc rest = .ok (acc ++ rest) := by
  induction rest generalizing acc with
  | nil => simp [applySegments]
  | cons s rest ih =>
    obtain ⟨nonempty, notDot, notUp, chars⟩ := named s (by simp)
    have noNul : s.contains (Char.ofNat 0) = false := by
      simpa [String.contains_char_eq] using fun member => (chars _ member).2.2 rfl
    have notSkipped : (s == "" || s == ".") = false := by simp [nonempty, notDot]
    have notParent : (s == "..") = false := by simpa using notUp
    simp only [applySegments, notSkipped, notParent, noNul, Bool.false_eq_true, if_false]
    simpa using @ih (acc ++ [s]) fun s' member => named s' (by simp [member])

theorem applySegments_plain {original : String} {acc rest : List String}
    (plain : ∀ s ∈ rest, PlainSegment s) :
    applySegments original acc rest = .ok (acc ++ rest) :=
  applySegments_segments fun s member => (plain s member).segment

theorem forall_mem_intercalate {P : Char → Prop} {names : List String} (slash : P '/')
    (each : ∀ s ∈ names, ∀ c ∈ s.toList, P c) :
    ∀ c ∈ ("/".intercalate names).toList, P c := by
  induction names with
  | nil => simp
  | cons s rest ih =>
    have inRest := ih fun s' member => each s' (by simp [member])
    cases rest with
    | nil => simpa using each s (by simp)
    | cons s' rest =>
      intro c member
      rw [String.intercalate_cons_of_ne_nil (by simp)] at member
      simp only [String.toList_append, List.mem_append] at member
      rcases member with (inFirst | isSlash) | inMore
      · exact each s (by simp) c inFirst
      · simp at isSlash; exact isSlash ▸ slash
      · exact inRest c inMore

theorem intercalate_starts (first : String) (rest : List String) :
    ∃ more, ("/".intercalate (first :: rest)).toList = first.toList ++ more := by
  cases rest with
  | nil => exact ⟨[], by simp⟩
  | cons s rest =>
    refine ⟨("/" ++ "/".intercalate (s :: rest)).toList, ?_⟩
    rw [String.intercalate_cons_of_ne_nil (by simp)]
    simp

theorem intercalate_ends (names : List String) (last : String) :
    ∃ more, ("/".intercalate (names ++ [last])).toList = more ++ last.toList := by
  cases names with
  | nil => exact ⟨[], by simp⟩
  | cons s rest =>
    refine ⟨("/".intercalate (s :: rest) ++ "/").toList, ?_⟩
    rw [String.intercalate_append_of_ne_nil (by simp) (by simp)]
    simp

/-- The pieces a text is cut into when it is read as a path. -/
def textPieces (s : String) : List String :=
  ((((trimBlank s).toList.map fun c => if c == '\\' then '/' else c).dropWhile (· == '/')).splitOn
    '/').map String.ofList

theorem join_eq_pieces (p : Path) (s : String) :
    p.join s = (applySegments s p.segments (textPieces s)).map Path.mk := rfl

theorem textPieces_intercalate {pieces : List String} (nonempty : pieces ≠ [])
    (unslashed : ∀ s ∈ pieces, ∀ c ∈ s.toList, c ≠ '/' ∧ c ≠ '\\')
    (first : ∀ c ∈ ("/".intercalate pieces).toList.head?, c ≠ '/' ∧ isBlank c = false)
    (last : ∀ c ∈ ("/".intercalate pieces).toList.getLast?, isBlank c = false) :
    textPieces ("/".intercalate pieces) = pieces := by
  unfold textPieces
  set text := "/".intercalate pieces
  have trimmed : trimBlank text = text :=
    trimBlank_eq_self (fun c member => (first c member).2) last
  have chars : ∀ c ∈ text.toList, c ≠ '\\' :=
    forall_mem_intercalate (by decide) fun s member c inS => (unslashed s member c inS).2
  have unmapped : (text.toList.map fun c => if c == '\\' then '/' else c) = text.toList :=
    (List.map_congr_left fun c member => by simp [chars c member]).trans (List.map_id _)
  have undropped : text.toList.dropWhile (· == '/') = text.toList := by
    cases spelled : text.toList with
    | nil => rfl
    | cons c cs =>
      have notSlash := (first c (by simp [spelled])).1
      simp [notSlash]
  have cut : text.toList.splitOn '/' = pieces.map String.toList := by
    rw [String.toList_intercalate]
    refine List.splitOn_intercalate '/' (fun l member => ?_) (by simpa using nonempty)
    obtain ⟨s, inPieces, rfl⟩ := List.mem_map.mp member
    exact fun inS => (unslashed s inPieces '/' inS).1 rfl
  simp only [trimmed, unmapped, undropped, cut, List.map_map]
  simp

theorem parse_intercalate {names : List String} (plain : ∀ s ∈ names, PlainSegment s) :
    parse ("/".intercalate names) = .ok ⟨names⟩ := by
  rcases List.eq_nil_or_concat names with empty | ⟨init, last, rfl⟩
  · subst empty
    rfl
  rw [List.concat_eq_append] at plain ⊢
  obtain ⟨first, rest, spelled⟩ := List.exists_cons_of_ne_nil (show init ++ [last] ≠ [] by simp)
  have firstPlain := plain first (by simp [spelled])
  have lastPlain := plain last (by simp)
  obtain ⟨tail, startsWith⟩ := intercalate_starts first rest
  obtain ⟨front, endsWith⟩ := intercalate_ends init last
  have cut : textPieces ("/".intercalate (init ++ [last])) = init ++ [last] := by
    refine textPieces_intercalate (by simp)
      (fun s member c inS =>
        ⟨((plain s member).2.2.2.1 c inS).1, ((plain s member).2.2.2.1 c inS).2.1⟩)
      ?_ ?_
    · rw [spelled, startsWith, List.head?_append,
        Option.or_of_isSome (by simpa using firstPlain.ne_nil)]
      intro c member
      obtain ⟨c', cs, firstChars⟩ := List.exists_cons_of_ne_nil firstPlain.ne_nil
      rw [firstChars] at member
      cases member
      exact ⟨(firstPlain.2.2.2.1 c (by simp [firstChars])).1,
        firstPlain.2.2.2.2.1 c (by simp [firstChars])⟩
    · rw [endsWith, List.getLast?_append, Option.or_of_isSome (by simpa using lastPlain.ne_nil)]
      exact lastPlain.2.2.2.2.2
  rw [parse, join_eq_pieces, cut, applySegments_plain plain]
  rfl

theorem join_plain {p : Path} {s : String} (plain : PlainSegment s) :
    p.join s = .ok (p.child s) := by
  have cut : textPieces ("/".intercalate [s]) = [s] := by
    refine textPieces_intercalate (by simp) (by simpa using fun c inS =>
      ⟨(plain.2.2.2.1 c inS).1, (plain.2.2.2.1 c inS).2.1⟩) ?_ ?_
    · intro c member
      have inS : c ∈ s.toList := List.mem_of_mem_head? (by simpa using member)
      exact ⟨(plain.2.2.2.1 c inS).1, plain.2.2.2.2.1 c (by simpa using member)⟩
    · simpa using plain.2.2.2.2.2
  rw [join_eq_pieces, show s = "/".intercalate [s] by simp, cut,
    applySegments_plain (by simpa using plain)]
  simp
  rfl

theorem compare_go_eq_lt {a b : List String} : compare.go a b = .lt ↔ a < b := by
  induction a generalizing b with
  | nil => cases b <;> simp [compare.go]
  | cons x xs ih =>
    cases b with
    | nil => simp [compare.go]
    | cons y ys =>
      rw [List.cons_lt_cons_iff]
      rcases lt_trichotomy x y with less | same | greater
      · simp [compare.go, compare_lt_iff_lt.mpr less, less]
      · subst same
        simp [compare.go, ih]
      · simp [compare.go, compare_gt_iff_gt.mpr greater, not_lt_of_gt greater, ne_of_gt greater]

theorem lt_iff {p q : Path} : p.lt q = true ↔ p.segments < q.segments := by
  simp [lt, compare, compare_go_eq_lt]

theorem lt_of_child_lt {d a b : Path} {m n : String} (earlier : m < n)
    (underM : (d.child m).segments <+: a.segments) (underN : (d.child n).segments <+: b.segments) :
    a.lt b = true := by
  obtain ⟨x, underA⟩ := underM
  obtain ⟨y, underB⟩ := underN
  have heads : m :: x < n :: y := List.cons_lt_cons_iff.mpr (.inl earlier)
  have ordered : d.segments ++ m :: x < d.segments ++ n :: y := List.append_left_lt heads
  rw [lt_iff, ← underA, ← underB]
  simpa using ordered

theorem Plain.append {p q : Path} (left : p.Plain) (right : q.Plain) : (p.append q).Plain := by
  intro s member
  rcases List.mem_append.mp member with inP | inQ
  · exact left s inP
  · exact right s inQ

theorem Plain.stripPrefix {p base : Path} (plain : p.Plain) : ((p.stripPrefix base).getD root).Plain := by
  unfold Path.stripPrefix
  split
  · exact fun s member => plain s (List.mem_of_mem_drop member)
  · exact fun s member => by simp [root] at member

theorem nodup_of_pairwise_lt {paths : List Path} (sorted : paths.Pairwise fun a b => a.lt b = true) :
    paths.Nodup :=
  sorted.imp fun {a b} earlier same => by
    subst same
    exact lt_irrefl a.segments (lt_iff.mp earlier)

end Monorepo.Path
