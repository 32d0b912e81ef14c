import Monorepo.Error
import Monorepo.Text.Blank

/-! Workspace-relative paths. A path is its list of segments; the workspace root has none and
is written `.`. Reading a path trims it, takes backslashes as separators, drops empty and `.`
segments and lets `..` remove the segment before it, refusing to climb above the root. Paths
order segment by segment. -/
namespace Monorepo

/-- A normalised path below the workspace root. -/
structure Path where
  segments : List String
  deriving DecidableEq, Repr, Hashable

namespace Path

def root : Path := ⟨[]⟩

def isRoot (p : Path) : Bool := p.segments.isEmpty

def length (p : Path) : Nat := p.segments.length

def render (p : Path) : String :=
  if p.segments.isEmpty then "." else "/".intercalate p.segments

instance : ToString Path := ⟨render⟩

/-- Applies the segments of a text to `base`; `original` is the text quoted in errors. -/
def applySegments (original : String) : List String → List String → Outcome (List String)
  | acc, [] => .ok acc
  | acc, s :: rest =>
    if s == "" || s == "." then applySegments original acc rest
    else if s == ".." then
      match acc with
      | [] => .error (.invalidPath original "escapes the workspace root")
      | _ => applySegments original acc.dropLast rest
    else if s.contains (Char.ofNat 0) then .error (.invalidPath original "contains a NUL byte")
    else applySegments original (acc ++ [s]) rest

/-- The path reached from `p` by the relative text `other`. -/
def join (p : Path) (other : String) : Outcome Path :=
  let chars := (Text.trimBlank other).toList.map fun c => if c == '\\' then '/' else c
  let pieces := ((chars.dropWhile (· == '/')).splitOn '/').map String.ofList
  (applySegments other p.segments pieces).map Path.mk

def parse (text : String) : Outcome Path := root.join text

def append (p other : Path) : Path := ⟨p.segments ++ other.segments⟩

/-- The path without its last segment; the root has none. -/
def parent (p : Path) : Option Path :=
  if p.segments.isEmpty then none else some ⟨p.segments.dropLast⟩

def fileName (p : Path) : Option String := p.segments.getLast?

def first (p : Path) : Option String := p.segments.head?

/-- The text after the last dot of the file name, when something stands before that dot. -/
def extension (p : Path) : Option String :=
  match p.fileName with
  | none => none
  | some name =>
    let parts := name.splitOn "."
    match parts with
    | [] | [_] => none
    | _ =>
      let ext := parts.getLast?.getD ""
      let stem := ".".intercalate parts.dropLast
      if stem.isEmpty then none else some ext

def startsWith (p base : Path) : Bool :=
  base.segments.isPrefixOf p.segments

def stripPrefix (p base : Path) : Option Path :=
  if p.startsWith base then some ⟨p.segments.drop base.segments.length⟩ else none

def commonLength : List String → List String → Nat
  | a :: as, b :: bs => if a == b then commonLength as bs + 1 else 0
  | _, _ => 0

/-- The relative text leading from the directory `base` to `p`; `.` for the same place. -/
def relativeTo (p base : Path) : String :=
  let common := commonLength p.segments base.segments
  let parts := List.replicate (base.length - common) ".." ++ p.segments.drop common
  if parts.isEmpty then "." else "/".intercalate parts

/-- `../` once per segment: the way from this directory back to the root. -/
def offsetFromRoot (p : Path) : String :=
  String.join (List.replicate p.length "../")

/-- Lexicographic order of segment lists. -/
def compare (p q : Path) : Ordering :=
  let rec go : List String → List String → Ordering
    | [], [] => .eq
    | [], _ :: _ => .lt
    | _ :: _, [] => .gt
    | a :: as, b :: bs =>
      match Ord.compare a b with
      | .eq => go as bs
      | o => o
  go p.segments q.segments

instance : Ord Path := ⟨compare⟩

def lt (p q : Path) : Bool := p.compare q == .lt

def child (p : Path) (name : String) : Path := ⟨p.segments ++ [name]⟩

end Path

end Monorepo
