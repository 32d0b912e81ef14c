import Monorepo.Toml.Lex

/-! Problems found while reading a TOML document: what is wrong, what the reader expected
there, and the characters it points at. The first problem found is the one reported. -/

namespace Monorepo.Toml

/-- What a reader expected where it stopped: a piece of text, or a description of one. -/
inductive Expected where
  | literal (text : String)
  | description (text : String)
  deriving DecidableEq, Repr

/-- How an expectation reads in a message: quoted text, except that a line break is named. -/
def Expected.render : Expected → String
  | .literal text => if text == "\n" then "newline" else "`" ++ text ++ "`"
  | .description text => text

/-- A reading problem. A reader that names no expectation leaves `expected` empty; one that
expects nothing at all there gives the empty list. -/
structure Problem where
  message : String
  expected : Option (List Expected)
  span : Span
  deriving DecidableEq, Repr

/-- The full message of a problem, with what was expected. -/
def Problem.text (p : Problem) : String :=
  match p.expected with
  | none => p.message
  | some [] => p.message ++ ", expected nothing"
  | some es => p.message ++ ", expected " ++ ", ".intercalate (es.map Expected.render)

def Problem.shift (p : Problem) (offset : Nat) : Problem := { p with span := p.span.shift offset }

example : (Problem.text ⟨"unexpected key or value", some [.literal "\n", .literal "#"], ⟨0, 0⟩⟩) =
    "unexpected key or value, expected newline, `#`" := by decide

end Monorepo.Toml
