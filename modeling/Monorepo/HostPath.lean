import Monorepo.Path

/-! Paths of the host file system, written as text. A host path reads as an optional root and
a list of components: empty components and `.` after the first position vanish, `..` stays. One
path lies under another when the other's components are a prefix of its own. -/
namespace Monorepo.HostPath

/-- The components of a host path: whether it starts at the root, and its named parts. -/
structure Components where
  absolute : Bool
  parts : List String
  deriving DecidableEq, Repr

/-- Splits a host path into components; a leading `.` is kept as a part of its own. -/
def components (text : String) : Components :=
  let absolute := text.startsWith "/"
  let raw := text.splitOn "/"
  let keepLeadingDot := !absolute && raw.head? == some "."
  let named := raw.filter fun s => s != "" && s != "."
  ⟨absolute, if keepLeadingDot then "." :: named else named⟩

/-- The rest of `path` below `base`, as text, when `base` is a prefix of it. -/
def stripPrefix (path base : String) : Option String :=
  let p := components path
  let b := components base
  if p.absolute == b.absolute && b.parts.isPrefixOf p.parts then
    some ("/".intercalate (p.parts.drop b.parts.length))
  else none

/-- Appends one name to a host path, with a single separator between. -/
def push (base name : String) : String :=
  if base.isEmpty then name
  else if base.endsWith "/" then base ++ name
  else base ++ "/" ++ name

/-- The host location of a workspace path below the host directory `base`. -/
def ofPath (base : String) (p : Path) : String :=
  p.segments.foldl push base

/-- The workspace path of a host path below `base`. -/
def toPath (physical base : String) : Outcome Path :=
  match stripPrefix physical base with
  | none => .error (.invalidPath physical ("not under " ++ base))
  | some rest => Path.parse rest

end Monorepo.HostPath
