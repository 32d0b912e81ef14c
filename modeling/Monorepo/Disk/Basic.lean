import Monorepo.Error
import Monorepo.Text.Utf8

/-! A directory tree on disk, as the operating system shows it to a program: files with bytes
and directories, each at a list of names below a fixed top directory. Every entry's parent is a
directory. Operations fail as the system calls of a POSIX system do: a missing component is
"not found", a file where a directory is needed "not a directory", and so on. Names are text,
or raw bytes when they are not UTF-8. -/

namespace Monorepo

open Utf8

/-- The name of a directory entry. -/
inductive Name where
  | text (s : String)
  | raw (bytes : Bytes)
  deriving DecidableEq, Repr, Inhabited

namespace Name

/-- The name with these bytes: text when they are UTF-8. -/
def ofBytes (bs : Bytes) : Name :=
  match decode? bs with
  | some s => .text s
  | none => .raw bs

def bytes : Name → Bytes
  | .text s => encode s
  | .raw bs => bs

/-- The name as text, with U+FFFD for bytes that are not UTF-8. -/
def display : Name → String
  | .text s => s
  | .raw bs => decodeLossy bs

def text? : Name → Option String
  | .text s => some s
  | .raw _ => none

end Name

/-- Byte strings in lexicographic order. -/
def bytesLt : Bytes → Bytes → Bool
  | [], [] => false
  | [], _ :: _ => true
  | _ :: _, [] => false
  | a :: as, b :: bs => a < b || (a == b && bytesLt as bs)

/-- Paths of names in lexicographic order of their names' bytes. -/
def namesLt : List Name → List Name → Bool
  | [], [] => false
  | [], _ :: _ => true
  | _ :: _, [] => false
  | a :: as, b :: bs => bytesLt a.bytes b.bytes || (a == b && namesLt as bs)

/-- What stands at a path of a disk. -/
inductive Entry where
  | file (content : Bytes)
  | dir
  deriving DecidableEq, Repr

/-- A directory tree below a top directory, which always exists. -/
structure Disk where
  entries : List (List Name × Entry) := []
  deriving Repr

namespace Disk

/-- The entry at a path; the top directory for the empty path. -/
def get? (d : Disk) (p : List Name) : Option Entry :=
  if p.isEmpty then some .dir else (d.entries.find? (·.1 == p)).map (·.2)

def isDir (d : Disk) (p : List Name) : Bool := d.get? p == some .dir

/-- Whether a file stands at a path. -/
def isFile (d : Disk) (p : List Name) : Bool :=
  match d.get? p with
  | some (.file _) => true
  | _ => false

def contains (d : Disk) (p : List Name) : Bool := (d.get? p).isSome

/-- Resolves the directories above a path, from the top down: the first missing one is "not
found", the first file "not a directory". -/
def checkParents (d : Disk) (p : List Name) : Except OsError Unit :=
  (List.range (p.length - 1)).forM fun k =>
    match d.get? (p.take (k + 1)) with
    | some .dir => .ok ()
    | some (.file _) => .error .notDirectory
    | none => .error .notFound

/-- The entries directly inside a directory, with their names. -/
def childEntries (d : Disk) (p : List Name) : List (Name × Entry) :=
  d.entries.filterMap fun (q, e) =>
    if q.length == p.length + 1 && p.isPrefixOf q then q.getLast?.map (·, e) else none

def below (d : Disk) (p : List Name) : List (List Name × Entry) :=
  d.entries.filter fun (q, _) => q.length > p.length && p.isPrefixOf q

/-- Puts an entry at a path, replacing what stood there. -/
def put (d : Disk) (p : List Name) (e : Entry) : Disk :=
  if d.entries.any (·.1 == p) then
    { entries := d.entries.map fun (q, old) => if q == p then (q, e) else (q, old) }
  else { entries := d.entries ++ [(p, e)] }

def drop (d : Disk) (p : List Name) : Disk :=
  { entries := d.entries.filter fun (q, _) => !p.isPrefixOf q }

/-- Reads a file. -/
def read (d : Disk) (p : List Name) : Except OsError Bytes := do
  d.checkParents p
  match d.get? p with
  | some (.file content) => return content
  | some .dir => throw .isDirectory
  | none => throw .notFound

/-- Writes a file, creating or truncating it. -/
def write (d : Disk) (p : List Name) (content : Bytes) : Except OsError Disk := do
  if p.isEmpty then throw .isDirectory
  d.checkParents p
  match d.get? p with
  | some .dir => throw .isDirectory
  | _ => return d.put p (.file content)

/-- Removes a file. -/
def removeFile (d : Disk) (p : List Name) : Except OsError Disk := do
  if p.isEmpty then throw .isDirectory
  d.checkParents p
  match d.get? p with
  | some (.file _) => return d.drop p
  | some .dir => throw .isDirectory
  | none => throw .notFound

/-- Lists the names in a directory. -/
def readDir (d : Disk) (p : List Name) : Except OsError (List Name) := do
  d.checkParents p
  match d.get? p with
  | some .dir => return (d.childEntries p).map (·.1)
  | some (.file _) => throw .notDirectory
  | none => throw .notFound

/-- Removes an empty directory. -/
def removeDir (d : Disk) (p : List Name) : Except OsError Disk := do
  d.checkParents p
  match d.get? p with
  | some .dir =>
    if !(d.childEntries p).isEmpty then throw .notEmpty
    else if p.isEmpty then throw .notEmpty
    else return d.drop p
  | some (.file _) => throw .notDirectory
  | none => throw .notFound

/-- Creates one directory. -/
def createDir (d : Disk) (p : List Name) : Except OsError Disk := do
  d.checkParents p
  match d.get? p with
  | some _ => throw .alreadyExists
  | none => return d.put p .dir

/-- Creates a directory and its missing parents: a component that is a file fails with the
error of creating the directory below it. -/
def createDirAll (d : Disk) (p : List Name) : Except OsError Disk :=
  go p.length d p
where
  go : Nat → Disk → List Name → Except OsError Disk
    | 0, d, _ => .ok d
    | fuel + 1, d, p =>
      if p.isEmpty then .ok d
      else
        match d.createDir p with
        | .ok d => .ok d
        | .error .notFound => do
          let d ← go fuel d p.dropLast
          match d.createDir p with
          | .ok d => .ok d
          | .error e => if d.isDir p then .ok d else .error e
        | .error e => if d.isDir p then .ok d else .error e

/-- Removes a file, or a directory with everything in it. -/
def removeAll (d : Disk) (p : List Name) : Except OsError Disk := do
  d.checkParents p
  match d.get? p with
  | some _ => if p.isEmpty then return { entries := [] } else return d.drop p
  | none => throw .notFound

def writeWithParents (d : Disk) (p : List Name) (content : Bytes) : Except OsError Disk := do
  let d ← d.createDirAll p.dropLast
  d.write p content

/-- Every file with its content, in byte order of the paths. -/
def files (d : Disk) : List (List Name × Bytes) :=
  (d.entries.filterMap fun (p, e) => match e with
    | .file content => some (p, content)
    | .dir => none).mergeSort fun a b => namesLt a.1 b.1

/-- Every directory, in byte order of the paths. -/
def dirs (d : Disk) : List (List Name) :=
  (d.entries.filterMap fun (p, e) => match e with
    | .dir => some p
    | .file _ => none).mergeSort fun a b => namesLt a b

end Disk

def renderNames (p : List Name) : String := "/".intercalate (p.map Name.display)

end Monorepo
