import Monorepo.Script.Recovery
import Monorepo.Script.Language
import Monorepo.Error

/-! Parsing a whole source file into its syntax tree. Comments are read along with the tokens
and placed afterwards in the smallest node that holds tokens on both sides of them; a file that
does not parse is refused with the line and byte column of the first failure, both counted from
one. -/

namespace Monorepo.Script

/-- A source text together with its syntax tree. -/
structure Parsed where
  src : Source
  root : Node

/-- The kind of a comment that starts with `opening`: a `#!` line, an HTML comment mark, or an
ordinary comment. -/
def commentKind (opening : String) : Kind :=
  if opening.startsWith "#!" then .named "hash_bang_line"
  else if opening.startsWith "<!--" || opening.startsWith "-->" then .named "html_comment"
  else .comment

mutual

def Node.insertComment (c : Node) : Node → Node
  | ⟨k, f, s, e, cs⟩ => ⟨k, f, s, e, Node.insertAmong c cs⟩

/-- Places a comment among siblings: inside the one that spans it, or between two of them. -/
def Node.insertAmong (c : Node) : List Node → List Node
  | [] => [c]
  | n :: rest =>
    if c.stop ≤ n.start then c :: n :: rest
    else if n.start ≤ c.start ∧ c.stop ≤ n.stop ∧ !n.children.isEmpty then
      Node.insertComment c n :: rest
    else n :: Node.insertAmong c rest

end

/-- Reads a source text with the grammar of `language`; a failure is given by the byte offset
where it is reported. -/
def parseTree (language : Language) (text : String) : Except Nat Parsed :=
  let src := Source.ofString text
  let jsx := language == .tsx
  match readSource jsx src with
  | .error f => .error (Recovery.locate jsx src f)
  | .ok (items, final) =>
    let comments := final.comments.toList.map fun (a, b) =>
      Node.leaf (commentKind (src.slice a (a + 4))) (src.byte a) (src.byte b)
    let root : Node := ⟨.program, none, 0, text.utf8ByteSize, items⟩
    .ok ⟨src, comments.foldl (fun r c => Node.insertComment c r) root⟩

/-- The text describing a failure at a byte offset: its line and byte column, counted from
one. -/
def describeFailure (src : Source) (offset : Nat) : String :=
  let (row, col) := src.point offset
  "syntax error at line " ++ toString (row + 1) ++ ", column " ++ toString (col + 1)

/-- Parses a source file; `origin` names it in the error. -/
def parse (language : Language) (text : String) (origin : String) : Outcome Parsed :=
  match parseTree language text with
  | .ok p => .ok p
  | .error offset => .error (.parse origin (describeFailure (Source.ofString text) offset))

end Monorepo.Script
