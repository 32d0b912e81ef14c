import Monorepo.Codemod.Literal
import Monorepo.Codemod.Render
import Monorepo.Text.Blank

/-! The values a patch writes into a configuration object: plain data rendered in the file's
style, code inserted as written, or a call with data arguments. A value already holds at a node
when the node reads back as the same data, spells the same code up to blanks, or calls the same
function with the same data. -/

namespace Monorepo.Codemod

open Monorepo.Script Monorepo.Json

/-- A value to place at a property path. -/
inductive PatchValue where
  /-- Plain data, rendered as a literal in the file's style. -/
  | literal (value : Json.Value)
  /-- Code inserted as written, such as `resolve(__dirname, 'dist')`. -/
  | raw (code : String)
  /-- A call with data arguments, such as `replaceFiles([...])`. -/
  | call (callee : String) (arguments : List Json.Value)

namespace PatchValue

def asObject? : PatchValue → Option Members
  | .literal (.object ms) => some ms
  | _ => none

def squeeze (code : String) : String := String.ofList (code.toList.filter (!Text.isBlank ·))

def isCallTo (src : Source) (node : Node) (callee : String) : Bool :=
  node.kind == .callExpression && ((node.child? .callee).map (·.text src)) == some callee

/-- Whether `node` already holds this value. -/
def holdsAt (v : PatchValue) (src : Source) (node : Node) : Bool :=
  match v with
  | .literal expected =>
    match literalValue src node with
    | some found => found == expected
    | none => false
  | .raw code => squeeze (node.text src) == squeeze code
  | .call callee arguments =>
    isCallTo src node callee &&
      match node.child? .arguments with
      | some args =>
        match args.members.mapM (literalValue src) with
        | some found => found == arguments
        | none => false
      | none => false

/-- Whether `node` is the same array entry as this value: calls are the same entry when they
call the same function, whatever the arguments. -/
def sameEntry (v : PatchValue) (src : Source) (node : Node) : Bool :=
  match v with
  | .call callee _ => isCallTo src node callee
  | _ => v.holdsAt src node

/-- The source text of the value placed in an object of style `style`. -/
def render (v : PatchValue) (style : ObjectStyle) : String :=
  match v with
  | .literal value => renderValue style value
  | .raw code => code
  | .call callee arguments =>
    callee ++ "(" ++ ", ".intercalate (arguments.map (renderValue style)) ++ ")"

end PatchValue

end Monorepo.Codemod
