import Mathlib
import Monorepo.Proofs.Path.RoundTrip
import Monorepo.Workspace.Layout

/-! Where a conversion sends a project. The settings check accepts a directory that is not
empty, does not start with `/` and has no `..` between two slashes; a project goes to that
directory followed by its name, for the project at the root, or by its root. Read as a path, such
a destination descends through the directory's pieces and ends with the project's own segments,
so reading never fails and never lands on the workspace root, provided the text reads as the check
cut it. Reading also turns `\` into a separator, trims white space at both ends of the whole
text and refuses NUL, none of which the check looks at; and a name or a last segment that ends in
white space loses it, so that a root project named `.. ` climbs back out of its directory.
Main statement: `destinationFor_lands_below`. -/

namespace Monorepo.Config

open Monorepo.Text

theorem splitOnAux_slash (s : String) (b i : String.Pos.Raw) (r : List String) :
    s.splitOnAux "/" b i 0 r = s.splitAux (· == '/') b i r := by
  have sepChar : String.Pos.Raw.get "/" 0 = '/' := by decide
  have sepEnd : "/".rawEndPos ≤ String.Pos.Raw.next "/" 0 := by decide
  fun_induction s.splitAux (· == '/') b i r with
  | case1 b i r atEnd extended =>
    unfold String.splitOnAux
    simp [atEnd, extended]
  | case2 b i r notEnd _ slash next ih =>
    have slash : String.Pos.Raw.get s i = '/' := by simpa using slash
    have back : (String.Pos.Raw.next s i).unoffsetBy (String.Pos.Raw.next "/" 0) = i := by
      ext
      simp [String.Pos.Raw.next, String.Pos.Raw.unoffsetBy, slash, sepChar]
    unfold String.splitOnAux
    simp [notEnd, sepChar, sepEnd, slash, back, next, ih]
  | case3 b i r notEnd _ other ih =>
    have other : String.Pos.Raw.get s i ≠ '/' := by simpa using other
    unfold String.splitOnAux
    simp [notEnd, sepChar, other, ih]

theorem splitOn_slash (s : String) :
    s.splitOn "/" = (s.toList.splitOn '/').map String.ofList := by
  rw [String.splitOn, if_neg (by decide), splitOnAux_slash, List.splitOn_eq_splitOnP,
    ← String.splitToList_of_valid]
  rfl

theorem isWorkspaceDir_iff {dir : String} :
    isWorkspaceDir dir = true ↔ dir.toList ≠ [] ∧ dir.toList.head? ≠ some '/' ∧
      ∀ piece ∈ (dir.toList.splitOn '/').map String.ofList, piece ≠ ".." := by
  have notEmpty : dir.isEmpty = false ↔ dir.toList ≠ [] := by simp
  have notSlashed : dir.startsWith "/" = false ↔ dir.toList.head? ≠ some '/' := by
    rw [String.startsWith_string_eq_false_iff]
    cases dir.toList <;> simp [eq_comm]
  simp only [isWorkspaceDir, splitOn_slash, Bool.and_eq_true, Bool.not_eq_true', notEmpty,
    notSlashed, List.any_eq_false, beq_iff_eq, ne_eq]
  tauto

namespace ToolConfig

theorem validate_eq_ok {c : ToolConfig} :
    c.validate = .ok () ↔ logLevels.contains c.general.logLevel = true ∧
      c.workspace.manifestFile ≠ "" ∧
      ∀ dir ∈ [c.layout.appsDir, c.layout.libsDir, c.layout.packagesDir, c.workspace.outputDir],
        isWorkspaceDir dir = true := by
  unfold validate
  dsimp only
  split
  · rename_i unknown
    have unknown : c.general.logLevel ∉ logLevels := by simpa using unknown
    simp [unknown]
  split
  · rename_i unnamed
    simp [String.isEmpty_iff.mp unnamed]
  rename_i known named
  have known : logLevels.contains c.general.logLevel = true := by simpa using known
  have named : c.workspace.manifestFile ≠ "" := by simpa using named
  constructor
  · intro valid
    obtain ⟨_, looped, -⟩ := except_bind_eq_ok.mp valid
    have inside := (forIn_checks_eq_ok (fun entry : String × String => !isWorkspaceDir entry.2)
      (fun entry passes => by simp [passes]) (fun entry fails => by simp [fails])).mp looped
    exact ⟨known, named, by simpa using inside⟩
  · rintro ⟨-, -, inside⟩
    refine except_bind_eq_ok.mpr ⟨PUnit.unit, (forIn_checks_eq_ok
      (fun entry : String × String => !isWorkspaceDir entry.2)
      (fun entry passes => by simp [passes]) (fun entry fails => by simp [fails])).mpr ?_, rfl⟩
    simpa using inside

theorem validate_of_chars {c : ToolConfig} (known : logLevels.contains c.general.logLevel = true)
    (named : c.workspace.manifestFile ≠ "")
    (inside : ∀ dir ∈ [c.layout.appsDir, c.layout.libsDir, c.layout.packagesDir,
      c.workspace.outputDir], dir.toList ≠ [] ∧ dir.toList.head? ≠ some '/' ∧
        ∀ piece ∈ (dir.toList.splitOn '/').map String.ofList, piece ≠ "..") :
    c.validate = .ok () :=
  validate_eq_ok.mpr ⟨known, named, fun dir member => isWorkspaceDir_iff.mpr (inside dir member)⟩

theorem validate_default : validate {} = .ok () :=
  validate_of_chars (by decide) (by decide) (by decide)

end ToolConfig

end Monorepo.Config

namespace Monorepo.Path

open Monorepo.Text

/-- A directory text that reading cuts only at its slashes, as the settings check does: free of
`\` and NUL, and not starting with white space. -/
def CutAtSlashes (dir : String) : Prop :=
  (∀ c ∈ dir.toList, c ≠ '\\' ∧ c ≠ Char.ofNat 0) ∧ ∀ c ∈ dir.toList.head?, isBlank c = false

instance : DecidablePred CutAtSlashes := fun dir =>
  have : Decidable (∀ c ∈ dir.toList, c ≠ '\\' ∧ c ≠ Char.ofNat 0) := List.decidableBAll _ _
  have : Decidable (∀ c ∈ dir.toList.head?, isBlank c = false) := Option.decidableForallMem _
  inferInstanceAs (Decidable (_ ∧ _))

variable {original : String}

theorem applySegments_of_descending {acc pieces : List String}
    (descends : ∀ s ∈ pieces, s ≠ ".." ∧ Char.ofNat 0 ∉ s.toList) :
    ∃ kept, applySegments original acc pieces = .ok (acc ++ kept) := by
  induction pieces generalizing acc with
  | nil => exact ⟨[], by simp [applySegments]⟩
  | cons s rest ih =>
    obtain ⟨notUp, noNul⟩ := descends s (by simp)
    have later := fun s' member => descends s' (List.mem_cons_of_mem s member)
    by_cases skip : (s == "" || s == ".") = true
    · obtain ⟨kept, reached⟩ := @ih acc later
      exact ⟨kept, by simpa only [applySegments, skip, if_true] using reached⟩
    · obtain ⟨kept, reached⟩ := @ih (acc ++ [s]) later
      have notParent : (s == "..") = false := by simpa using notUp
      have clean : s.contains (Char.ofNat 0) = false := by
        simpa [String.contains_char_eq] using noNul
      refine ⟨s :: kept, ?_⟩
      simp only [applySegments, skip, notParent, clean, Bool.false_eq_true, if_false]
      simpa using reached

/-- A directory text followed by `/` and more is cut at the slashes of each part, when neither
part holds a backslash, the directory starts with neither `/` nor white space, and the whole
does not end in white space. -/
theorem textPieces_below {dir tail : String} (nonempty : dir.toList ≠ [])
    (first : ∀ c ∈ dir.toList.head?, c ≠ '/' ∧ isBlank c = false)
    (last : ∀ c ∈ tail.toList.getLast?, isBlank c = false)
    (unslashed : ∀ c ∈ dir.toList ++ tail.toList, c ≠ '\\') :
    textPieces (dir ++ "/" ++ tail) =
      (dir.toList.splitOn '/').map String.ofList ++ (tail.toList.splitOn '/').map String.ofList := by
  obtain ⟨d, ds, spelled⟩ := List.exists_cons_of_ne_nil nonempty
  have opening := first d (by simp [spelled])
  have chars : (dir ++ "/" ++ tail).toList = dir.toList ++ '/' :: tail.toList := by simp
  have trimmed : trimBlank (dir ++ "/" ++ tail) = dir ++ "/" ++ tail := by
    refine trimBlank_eq_self (fun c member => ?_) (fun c member => ?_)
    · rw [chars, spelled] at member
      cases member
      exact opening.2
    · rw [chars, List.getLast?_append, List.getLast?_cons] at member
      cases ending : tail.toList.getLast? with
      | none =>
        simp only [ending, Option.getD_none, Option.some_or] at member
        cases member
        decide
      | some e =>
        simp only [ending, Option.getD_some, Option.some_or] at member
        exact last c (by simpa [ending] using member)
  have unmapped : ((dir ++ "/" ++ tail).toList.map fun c => if c == '\\' then '/' else c) =
      (dir ++ "/" ++ tail).toList := by
    refine (List.map_congr_left fun c member => ?_).trans (List.map_id _)
    rw [chars, List.mem_append, List.mem_cons] at member
    have kept : c ≠ '\\' := by
      rcases member with inDir | rfl | inTail
      · exact unslashed c (List.mem_append_left _ inDir)
      · decide
      · exact unslashed c (List.mem_append_right _ inTail)
    simp [kept]
  have undropped : (dir.toList ++ '/' :: tail.toList).dropWhile (· == '/') =
      dir.toList ++ '/' :: tail.toList := by
    rw [spelled, List.cons_append]
    exact List.dropWhile_cons_of_neg (by simpa using opening.1)
  rw [textPieces, trimmed, unmapped, chars, undropped, List.splitOn_eq_splitOnP,
    List.splitOnP_append_cons _ _ (by decide), List.map_append, ← List.splitOn_eq_splitOnP,
    ← List.splitOn_eq_splitOnP]

/-- A directory the settings check accepts and reading cuts as the check does, followed by
segments whose last one does not end in white space, reads as some segments of the directory
followed by exactly those segments: reading neither fails nor climbs out of the directory. -/
theorem parse_below_checked_dir {dir : String} (checked : Config.isWorkspaceDir dir = true)
    (cut : CutAtSlashes dir) {segments : List String} (nonempty : segments ≠ [])
    (named : ∀ s ∈ segments, Segment s)
    (unpadded : ∀ s ∈ segments.getLast?, ∀ c ∈ s.toList.getLast?, isBlank c = false) :
    ∃ above, parse (dir ++ "/" ++ "/".intercalate segments) = .ok ⟨above ++ segments⟩ := by
  obtain ⟨filled, unrooted, noClimb⟩ := Config.isWorkspaceDir_iff.mp checked
  obtain ⟨clean, unblank⟩ := cut
  have first : ∀ c ∈ dir.toList.head?, c ≠ '/' ∧ isBlank c = false :=
    fun c member => ⟨fun slash => unrooted (slash ▸ member), unblank c member⟩
  have tailClean : ∀ c ∈ ("/".intercalate segments).toList, c ≠ '\\' :=
    forall_mem_intercalate (by decide) fun s member c inS => ((named s member).2.2.2 c inS).2.1
  have tailLast : ∀ c ∈ ("/".intercalate segments).toList.getLast?, isBlank c = false := by
    obtain ⟨init, final, rfl⟩ := (List.eq_nil_or_concat segments).resolve_left nonempty
    obtain ⟨front, endsWith⟩ := intercalate_ends init final
    rw [List.concat_eq_append, endsWith, List.getLast?_append,
      Option.or_of_isSome (by simpa using (named final (by simp)).ne_nil)]
    exact unpadded final (by simp)
  have tailPieces :
      (("/".intercalate segments).toList.splitOn '/').map String.ofList = segments := by
    have cut : ("/".intercalate segments).toList.splitOn '/' = segments.map String.toList := by
      rw [String.toList_intercalate]
      refine List.splitOn_intercalate '/' (fun l member => ?_) (by simpa using nonempty)
      obtain ⟨s, inSegments, rfl⟩ := List.mem_map.mp member
      exact fun inS => ((named s inSegments).2.2.2 '/' inS).1 rfl
    rw [cut, List.map_map]
    simp
  have descends : ∀ s ∈ (dir.toList.splitOn '/').map String.ofList,
      s ≠ ".." ∧ Char.ofNat 0 ∉ s.toList := by
    intro s member
    refine ⟨noClimb s member, fun nul => ?_⟩
    obtain ⟨piece, cut, rfl⟩ := List.mem_map.mp member
    rw [List.splitOn_eq_splitOnP] at cut
    exact (clean _ (mem_splitOnP cut _ (by simpa using nul)).2).2 rfl
  obtain ⟨kept, reached⟩ :=
    @applySegments_of_descending (dir ++ "/" ++ "/".intercalate segments) [] _ descends
  refine ⟨kept, ?_⟩
  have fromRoot : root.segments = [] := rfl
  rw [parse, join_eq_pieces, textPieces_below filled first tailLast fun c member => ?_, tailPieces,
    fromRoot, applySegments_append reached, applySegments_segments named]
  · rfl
  rcases List.mem_append.mp member with inDir | inTail
  · exact (clean c inDir).1
  · exact tailClean c inTail

end Monorepo.Path

namespace Monorepo.Workspace.LayoutScheme

open Monorepo.Text

theorem directoryFor_mem (rootType : Option ProjectType) (layout : Config.Layout)
    (kind : Option ProjectType) :
    (forRootType rootType layout).directoryFor kind ∈
      [layout.appsDir, layout.libsDir, layout.packagesDir] := by
  unfold forRootType directoryFor
  split <;> split <;> simp

theorem destinationFor_eq_intercalate (s : LayoutScheme) (project : Manifest) :
    s.destinationFor project = s.directoryFor project.projectType ++ "/" ++
      "/".intercalate (if project.root.isRoot then [project.name] else project.root.segments) := by
  unfold destinationFor
  split
  · simp
  · rename_i belowRoot
    have nonempty : project.root.segments.isEmpty = false := by simpa [Path.isRoot] using belowRoot
    simp [Path.render, nonempty]

/-- Under settings that pass the check, and whose directories read as the check cut them, a
project named by a segment and rooted at a path whose last segments do not end in white space
goes to a path below its directory that ends with its own segments: reading the destination
succeeds and never gives the workspace root. -/
theorem destinationFor_lands_below {c : Config.ToolConfig} (valid : c.validate = .ok ())
    (cut : ∀ dir ∈ [c.layout.appsDir, c.layout.libsDir, c.layout.packagesDir],
      Path.CutAtSlashes dir)
    (rootType : Option ProjectType) {project : Manifest} (named : Path.Segment project.name)
    (nameUnpadded : ∀ ch ∈ project.name.toList.getLast?, isBlank ch = false)
    (rooted : project.root.WellFormed)
    (rootUnpadded : ∀ s ∈ project.root.segments.getLast?, ∀ ch ∈ s.toList.getLast?,
      isBlank ch = false) :
    ∃ p, Path.parse ((forRootType rootType c.layout).destinationFor project) = .ok p ∧
      p ≠ Path.root ∧ ∃ above,
        p.segments = above ++ if project.root.isRoot then [project.name] else project.root.segments := by
  have chosen := directoryFor_mem rootType c.layout project.projectType
  obtain ⟨-, -, inside⟩ := Config.ToolConfig.validate_eq_ok.mp valid
  have checked := inside _ (List.mem_append_left [c.workspace.outputDir] chosen)
  have own : (if project.root.isRoot then [project.name] else project.root.segments) ≠ [] ∧
      (∀ s ∈ (if project.root.isRoot then [project.name] else project.root.segments),
        Path.Segment s) ∧
      ∀ s ∈ (if project.root.isRoot then [project.name] else project.root.segments).getLast?,
        ∀ ch ∈ s.toList.getLast?, isBlank ch = false := by
    split
    · exact ⟨by simp, by simpa using named, by simpa using nameUnpadded⟩
    · rename_i belowRoot
      exact ⟨by simpa [Path.isRoot] using belowRoot, rooted, rootUnpadded⟩
  obtain ⟨above, read⟩ := Path.parse_below_checked_dir checked (cut _ chosen) own.1 own.2.1 own.2.2
  refine ⟨⟨above ++ _⟩, by rw [destinationFor_eq_intercalate]; exact read, fun atRoot => ?_,
    above, rfl⟩
  have noSegments := congrArg Path.segments atRoot
  simp only [Path.root, List.append_eq_nil_iff] at noSegments
  exact own.1 noSegments.2

/-- Settings whose applications directory holds an empty piece and a `.`: a root application
named `shop` still lands below that directory. -/
theorem destinationFor_lands_below_dotted_apps :
    Config.ToolConfig.validate { layout := { appsDir := "./deploy//apps" } } = .ok () ∧
      ∃ p, Path.parse ((forRootType (some .application) { appsDir := "./deploy//apps" }).destinationFor
        { name := "shop", projectType := some .application }) = .ok p ∧ p ≠ Path.root ∧
        ∃ above, p.segments = above ++ ["shop"] := by
  have valid : Config.ToolConfig.validate { layout := { appsDir := "./deploy//apps" } } = .ok () :=
    Config.ToolConfig.validate_of_chars (by decide) (by decide) (by decide)
  have shop : Path.PlainSegment "shop" := by decide
  exact ⟨valid, destinationFor_lands_below valid (by decide) (some .application) shop.segment
    shop.2.2.2.2.2 (fun s member => by cases member) (fun s member => by cases member)⟩

/-- The name check a conversion relies on lets the root project be named `.. `: a segment with no
slash that is neither `.` nor `..`. Under the default settings its destination `apps/.. ` loses the
blank when read, and `..` climbs back out of the applications directory to the workspace root. -/
theorem destinationFor_padded_parent_reads_root :
    Config.ToolConfig.validate {} = .ok () ∧
      (".. " ≠ "" ∧ ".. " ≠ "." ∧ ".. " ≠ ".." ∧ '/' ∉ ".. ".toList ∧ '\\' ∉ ".. ".toList) ∧
      Path.parse ((forRootType (some .application) {}).destinationFor
        { name := ".. ", projectType := some .application }) = .ok Path.root :=
  ⟨Config.ToolConfig.validate_default, by decide, by cbv⟩

end Monorepo.Workspace.LayoutScheme
