import Monorepo.Codemod.Edit
import Monorepo.Codemod.Render

/-! Named imports that patched values rely on. An import is added only when no import statement
binds the name yet, as a default import, a namespace or a named specifier (under its alias when
it has one). It goes after the last import, past comments on that import's line; a file with no
imports gets it before its first statement, after leading comments. -/

namespace Monorepo.Codemod

open Monorepo.Script

mutual

/-- The names an import statement binds, found below `n`, whose kind is `parent`. -/
def importBindings (src : Source) (parent : Kind) : Node → List String
  | ⟨k, f, s, e, cs⟩ =>
    let node : Node := ⟨k, f, s, e, cs⟩
    if k == .importSpecifier then
      match (node.child? .renamedAs).orElse fun _ => node.child? .name with
      | some local_ => [local_.text src]
      | none => []
    else
      let own := if k == .identifier && (parent == .importClause || parent == .namespaceImport)
        then [node.text src] else []
      own ++ importBindingsAmong src k cs

/-- The names bound below sibling nodes whose parent has kind `parent`. -/
def importBindingsAmong (src : Source) (parent : Kind) : List Node → List String
  | [] => []
  | n :: rest =>
    (if n.isNamed then importBindings src parent n else []) ++ importBindingsAmong src parent rest

end

/-- The end of `node`, extended over comments that follow it on its last line. -/
def trailingCommentEnd (src : Source) (parent node : Node) : Nat :=
  let row := src.row node.stop
  (parent.after node).foldl (fun (acc : Nat × Bool) n =>
    if acc.2 then acc
    else if n.isComment && src.row n.start == row then (n.stop, false)
    else (acc.1, true)) (node.stop, false) |>.1

/-- The edit that makes `name` imported from `module`, or none when something binds it. -/
def importEdit (p : Parsed) (name module : String) : Option TextEdit :=
  let statements := p.root.namedChildren
  let imports := statements.filter (·.kind == .importStatement)
  if imports.any fun i => (importBindings p.src .program i).contains name then none
  else
    let newline := detectNewline p.src.text
    let statement := "import \x7b " ++ name ++ " \x7d from " ++
      renderString module (detectQuote p) ++ ";"
    match imports.getLast? with
    | some last => some (.insert (trailingCommentEnd p.src p.root last) (newline ++ statement))
    | none =>
      match statements.find? (!·.isComment) with
      | some first => some (.insert first.start (statement ++ newline))
      | none => some (.insert p.src.text.utf8ByteSize (statement ++ newline))

end Monorepo.Codemod
