import Monorepo.Disk.Basic
import Monorepo.HostPath

/-! Host paths on a disk. The disk's top directory stands at a host path of its own; a relative
path starts there. A path is followed component by component: every component but the last must
lead to a directory, so a missing one is "not found" and a file on the way is "not a directory".
`.` and empty components stay where they are, `..` goes up, and a host path outside the top
directory does not exist. -/

namespace Monorepo.Disk

/-- Follows path components from a location; the place they lead to need not exist. -/
def follow (d : Disk) : List Name → List String → Except OsError (List Name)
  | here, [] => .ok here
  | here, part :: rest =>
    if !here.isEmpty && !d.isDir here then
      .error (if d.contains here then .notDirectory else .notFound)
    else
      let next :=
        if part == "" || part == "." then here
        else if part == ".." then here.dropLast
        else here ++ [Name.text part]
      follow d next rest

/-- The components of an absolute host path below the top directory, when it lies there. -/
def belowTop : List String → List String → Option (List String)
  | [], rest => some rest
  | _ :: _, [] => none
  | t :: ts, p :: ps =>
    if p == "" || p == "." then belowTop (t :: ts) ps
    else if p == t then belowTop ts ps
    else none

/-- Where a host path leads on a disk whose top directory is at host path `top`. -/
def resolve (d : Disk) (top path : String) : Except OsError (List Name) :=
  if path.startsWith "/" then
    match belowTop (HostPath.components top).parts ((path.splitOn "/").drop 1) with
    | some rest => d.follow [] rest
    | none => .error .notFound
  else d.follow [] (path.splitOn "/")

/-- Whether something stands at a host path; a file on the way is an error, not an absence. -/
def pathExists (d : Disk) (top path : String) : Except OsError Bool :=
  match d.resolve top path with
  | .ok p => .ok (d.contains p)
  | .error .notFound => .ok false
  | .error e => .error e

/-- The location of an existing host path, with every `.` and `..` resolved. -/
def canonical (d : Disk) (top path : String) : Except OsError (List Name) :=
  if path.isEmpty then .error .notFound
  else do
    let p ← d.resolve top path
    if d.contains p then return p else throw .notFound

def hostPath (top : String) (p : List Name) : String :=
  p.foldl (fun acc n => HostPath.push acc n.display) top

end Monorepo.Disk
