import Monorepo.Script.Parse

/-! Module specifiers: the quoted texts that imports, re-exports, `import x = require(...)` and
calls to `require`, `import`, `jest.mock` and `vi.mock` name. Only strings in those positions
count, so a path inside a comment or an ordinary string is never taken for one. A specifier is
relative when it is `.` or `..` or starts with `./` or `../`. -/
namespace Monorepo.Script

/-- A module specifier: its text and the byte range of the text inside the quotes. -/
structure Specifier where
  value : String
  start : Nat
  stop : Nat
  deriving Repr

namespace Specifier

/-- Whether a specifier names a module relative to the importing file. -/
def isRelative (s : String) : Bool :=
  s == "." || s == ".." || s.startsWith "./" || s.startsWith "../"

/-- Writes a relative path as a specifier: `.` becomes `./`, paths that climb stay, and others
get `./` in front. -/
def asRelative (s : String) : String :=
  if s == "." then "./"
  else if s.startsWith "../" || s == ".." then s
  else "./" ++ s

def relative (sp : Specifier) : Bool := isRelative sp.value

end Specifier

def moduleCalls : List String := ["require", "jest.mock", "vi.mock"]

/-- Whether `part`, not empty, occurs in `text`. -/
def occursIn (part text : String) : Bool :=
  !part.isEmpty && startsAnywhere text.toList
where
  startsAnywhere : List Char → Bool
    | [] => false
    | c :: cs => part.toList.isPrefixOf (c :: cs) || startsAnywhere cs

/-- Whether a text can name a module at all; texts that cannot are not parsed. -/
def mayNameModules (text : String) : Bool :=
  ["import", "from", "require", ".mock"].any (occursIn · text)

/-- The string node naming a module, if `n` names one. -/
def Node.moduleString (src : Source) (n : Node) : Option Node :=
  match n.kind with
  | .importStatement | .exportStatement | .importRequireClause => n.child? .source
  | .callExpression => do
    let f ← n.child? .callee
    if f.kind != .importKeyword && !moduleCalls.contains (f.text src) then none
    let args ← n.child? .arguments
    let first ← args.members.head?
    if first.kind == .string then some first else none
  | _ => none

/-- The specifier held by a string node: the text between its quotes. -/
def Node.specifierOf (src : Source) (n : Node) : Option Specifier :=
  if n.stop ≥ 1 ∧ n.start + 1 ≤ n.stop - 1 then
    some ⟨src.bytes (n.start + 1) (n.stop - 1), n.start + 1, n.stop - 1⟩
  else none

mutual

/-- The specifiers in a tree, in source order. -/
def Node.specifiers (src : Source) : Node → List Specifier
  | ⟨k, f, s, e, cs⟩ =>
    (((Node.moduleString src ⟨k, f, s, e, cs⟩).bind (Node.specifierOf src)).toList) ++
      Node.specifiersAmong src cs

/-- The specifiers in a list of sibling trees, in order. -/
def Node.specifiersAmong (src : Source) : List Node → List Specifier
  | [] => []
  | n :: rest =>
    (if n.isNamed then Node.specifiers src n else []) ++ Node.specifiersAmong src rest

end

/-- Every module specifier of a source text, in source order; a text that cannot name a module
is not parsed. -/
def scanSpecifiers (language : Language) (text origin : String) : Outcome (List Specifier) :=
  bif !mayNameModules text then .ok []
  else do
    let p ← parse language text origin
    return p.root.specifiers p.src

end Monorepo.Script
