import Monorepo.Config.Decode
import Monorepo.Disk.Basic
import Monorepo.Disk.Resolve

/-! Loading the tool's settings from disk. The settings file is the one the environment names,
else the one at the workspace root; when it does not exist the defaults apply. Either way the
environment's overrides follow and the result is checked. -/

namespace Monorepo.Config

/-- Reads, parses, overrides and checks the settings file at a disk location. -/
def loadFile (d : Disk) (p : List Name) (lookup : String → Option String) : Outcome ToolConfig := do
  let text ← match d.read p with
    | .ok bytes =>
      match Utf8.decode? bytes with
      | some s => pure s
      | none => throw (.config ("Failed to read config file: " ++ OsError.invalidUtf8.message))
    | .error e => throw (.config ("Failed to read config file: " ++ e.message))
  let c := (← ToolConfig.ofToml text).withEnvironment lookup
  c.validate
  return c

/-- Reads the settings file at a host path, on a disk whose top directory is at `top`. -/
def loadPath (d : Disk) (top path : String) (lookup : String → Option String) :
    Outcome ToolConfig :=
  match d.resolve top path with
  | .ok p => loadFile d p lookup
  | .error e => .error (.config ("Failed to read config file: " ++ e.message))

/-- Loads the settings of the workspace at host path `root`: the file the environment names,
else the one in the root; the defaults when it does not exist. -/
def load (d : Disk) (top root : String) (lookup : String → Option String) : Outcome ToolConfig :=
  let path := (lookup pathVariable).getD (HostPath.push root fileName)
  match d.pathExists top path with
  | .error e => .error (.io e)
  | .ok true => loadPath d top path lookup
  | .ok false =>
    let c := ({} : ToolConfig).withEnvironment lookup
    c.validate.map fun _ => c

end Monorepo.Config
