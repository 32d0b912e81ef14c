import Monorepo.Tree.Basic
import Monorepo.Json.Relaxed
import Monorepo.Json.Print

/-! JSON documents read and written through a staged tree. Reading accepts the relaxed syntax of
configuration files; a text that does not read, or holds no value, is a parse failure of that
file. Writing stages two-space indented JSON with a final line break. -/

namespace Monorepo.StagedTree

open Json

/-- Reads the JSON document of a file. -/
def readJson (t : StagedTree) (p : Path) : Outcome Value := do
  let content ← t.readToString p
  match Relaxed.read content with
  | .error f => throw (.parse p.render (f.report content))
  | .ok none => throw (.parse p.render "empty document")
  | .ok (some v) => return v

/-- Reads a file and decodes its document; a refusal of the decoder is a parse failure. -/
def readJsonAs {α : Type} (t : StagedTree) (p : Path) (decode : Value → Except String α) :
    Outcome α := do
  match decode (← t.readJson p) with
  | .ok a => return a
  | .error message => throw (.parse p.render message)

def jsonText (v : Value) : String := v.renderPretty ++ "\n"

def writeJson (t : StagedTree) (p : Path) (v : Value) : Outcome StagedTree :=
  t.writeText p (jsonText v)

end Monorepo.StagedTree
