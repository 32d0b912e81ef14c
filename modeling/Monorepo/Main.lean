import Monorepo.Cli.Program

/-! The tool as a program. It reads the working directory into a disk, runs its command line over
that disk, prints both streams, writes back to the working directory what the run changed, and
exits with the run's status. -/

namespace Monorepo.Host

/-- The entries below a host directory, to a depth. -/
def readTree : Nat → String → List Name → IO (List (List Name × Entry))
  | 0, _, _ => pure []
  | fuel + 1, dir, here => do
    let mut found : List (List Name × Entry) := []
    for e in ← (System.mkFilePath [dir]).readDir do
      let path := HostPath.push dir e.fileName
      let place := here ++ [Name.text e.fileName]
      let m ← (System.mkFilePath [path]).metadata
      if m.type == .dir then
        found := found ++ [(place, .dir)] ++ (← readTree fuel path place)
      else
        found := found ++ [(place, .file (← IO.FS.readBinFile path).toList)]
    return found

/-- Writes back what a run changed: removes what went, deepest first, then creates directories
and writes files that are new or changed. -/
def writeBack (top : String) (before after : Disk) : IO Unit := do
  let path (p : List Name) : String := Disk.hostPath top p
  for (p, e) in before.entries do
    if e != .dir && !after.isFile p then IO.FS.removeFile (path p)
  let gone := before.entries.filter fun (p, e) => e == .dir && !after.isDir p
  for (p, _) in gone.mergeSort fun a b => a.1.length ≥ b.1.length do
    IO.FS.removeDir (path p)
  for p in after.dirs do
    if !before.isDir p then IO.FS.createDirAll (path p)
  for (p, content) in after.files do
    if before.get? p != some (.file content) then IO.FS.writeBinFile (path p) ⟨content.toArray⟩

end Monorepo.Host

/-- Runs the tool in the working directory. -/
def main (args : List String) : IO UInt32 := do
  let top := (← IO.currentDir).toString
  let values ← Monorepo.Config.environmentVariables.mapM fun k => return (k, ← IO.getEnv k)
  let lookup (k : String) : Option String := (values.find? (·.1 == k)).bind (·.2)
  let before : Monorepo.Disk := { entries := ← Monorepo.Host.readTree 256 top [] }
  let finish := Monorepo.Cli.runTool top lookup args before
  IO.print finish.stdout
  IO.eprint finish.stderr
  Monorepo.Host.writeBack top before finish.disk
  return finish.status.toUInt32
