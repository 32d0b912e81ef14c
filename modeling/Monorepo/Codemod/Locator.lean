import Monorepo.Script.Parse

/-! Finding the configuration object of a file. A locator names where the object is exported:
as the default export, as `module.exports`, or as a variable; from there wrappers are peeled
off (a call, parentheses, `as`, `satisfies`, `!`, a function returning the object, a variable
holding it) until an object literal shows up, following at most eight of them. -/

namespace Monorepo.Codemod

open Monorepo.Script

/-- Which object literal of a file a patch targets. -/
inductive Locator where
  /-- `export default <expr>`, optionally the object passed to `callee(...)`. -/
  | defaultExport (callee : Option String)
  /-- `module.exports = <expr>`, optionally the object passed to `callee(...)`. -/
  | moduleExports (callee : Option String)
  /-- `const <name> = <expr>`. -/
  | variable (name : String)
  deriving DecidableEq, Repr

/-- How a locator is described in messages. -/
def Locator.describe : Locator → String
  | .defaultExport (some c) => "default export " ++ c ++ "(...)"
  | .defaultExport none => "default export"
  | .moduleExports (some c) => "module.exports = " ++ c ++ "(...)"
  | .moduleExports none => "module.exports"
  | .variable n => "variable '" ++ n ++ "'"

def maxWrappers : Nat := 8

namespace Lookup

/-- The value of the first `export default`. -/
def defaultExportValue (root : Node) : Option Node :=
  match root.namedChildren.find? fun s => s.kind == .exportStatement && s.hasToken "default" with
  | some s => (s.child? .value).orElse fun _ => s.child? .declaration
  | none => none

/-- The right side of the first `module.exports = ...` statement. -/
def moduleExportsValue (src : Source) (root : Node) : Option Node :=
  let found := root.namedChildren.findSome? fun s =>
    if s.kind != .expressionStatement then none
    else
      match s.namedChildren.head? with
      | some e =>
        if e.kind == .assignmentExpression &&
            ((e.child? .left).map (·.text src)) == some "module.exports" then some (e.child? .right)
        else none
      | none => none
  found.bind id

/-- The initial value of the first declarator named `name`, looking at `const`, `let` and
`var` statements and at exported ones. -/
def variableValue (src : Source) (root : Node) (name : String) : Option Node :=
  let declarations := root.namedChildren.filterMap fun s =>
    if s.kind == .lexicalDeclaration || s.kind == .variableDeclaration then some s
    else if s.kind == .exportStatement then s.child? .declaration
    else none
  let found := declarations.findSome? fun d =>
    (d.namedChildren.find? fun v =>
      v.kind == .variableDeclarator && ((v.child? .name).map (·.text src)) == some name).map
      (·.child? .value)
  found.bind id

/-- The expression of the first `return` directly inside a block. -/
def returnedExpression (block : Node) : Option Node :=
  (block.namedChildren.find? (·.kind == .returnStatement)).bind Node.firstMember?

/-- Whether the text of a callee matches the expected name, also as the last member of a
dotted path. -/
def calleeMatches (name expected : String) : Bool :=
  name == expected || name.endsWith ("." ++ expected)

/-- Peels wrappers off `node` until an object literal shows up; `fuel` counts the wrappers
still allowed. -/
def unwrap (src : Source) (root : Node) : Nat → Node → Option String → Option Node
  | 0, _, _ => none
  | fuel + 1, node, callee =>
    match node.kind with
    | .object => some node
    | .callExpression => do
      let f ← node.child? .callee
      if let some expected := callee then
        if !calleeMatches (f.text src) expected then none
      let args ← node.child? .arguments
      let first ← args.firstMember?
      unwrap src root fuel first none
    | .parenthesizedExpression | .asExpression | .satisfiesExpression | .nonNullExpression => do
      let inner ← node.firstMember?
      unwrap src root fuel inner callee
    | .arrowFunction | .functionExpression => do
      let body ← node.child? .body
      if body.kind == .statementBlock then
        let returned ← returnedExpression body
        unwrap src root fuel returned none
      else unwrap src root fuel body none
    | .identifier => do
      let value ← variableValue src root (node.text src)
      unwrap src root fuel value callee
    | _ => none

end Lookup

/-- The object literal a locator finds in a parsed file. -/
def Locator.find (l : Locator) (p : Parsed) : Option Node :=
  let fuel := maxWrappers + 1
  match l with
  | .defaultExport callee =>
    (Lookup.defaultExportValue p.root).bind fun v => Lookup.unwrap p.src p.root fuel v callee
  | .moduleExports callee =>
    (Lookup.moduleExportsValue p.src p.root).bind fun v => Lookup.unwrap p.src p.root fuel v callee
  | .variable name =>
    (Lookup.variableValue p.src p.root name).bind fun v => Lookup.unwrap p.src p.root fuel v none

end Monorepo.Codemod
