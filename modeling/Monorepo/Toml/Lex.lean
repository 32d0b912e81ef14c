/-! The tokens of a TOML document. A document is cut into punctuation (dots, equals signs,
commas, brackets and braces), runs of blanks, comments, line breaks, strings in their four
quotings, and atoms: the runs of other characters that make up bare keys, numbers, booleans and
dates. Cutting never fails: a string with no closing quote ends at the line break (or, when it
spans lines, at the end of the text), and deciding what is wrong with it is left to the readers
of the tokens. Places are character positions in the whole text. -/

namespace Monorepo.Toml

/-- A range of character positions, from `start` up to but not including `stop`. -/
structure Span where
  start : Nat
  stop : Nat
  deriving DecidableEq, Repr, Inhabited

namespace Span

def before (s : Span) : Span := ⟨s.start, s.start⟩

def after (s : Span) : Span := ⟨s.stop, s.stop⟩

/-- The range from the start of one range to the stop of another. -/
def append (s t : Span) : Span := ⟨s.start, t.stop⟩

def shift (s : Span) (offset : Nat) : Span := ⟨s.start + offset, s.stop + offset⟩

end Span

/-- The kinds of token. -/
inductive TokenKind where
  | dot
  | equals
  | comma
  | openBracket
  | closeBracket
  | openBrace
  | closeBrace
  | whitespace
  | comment
  | newline
  | literalString
  | basicString
  | multiLiteralString
  | multiBasicString
  | atom
  | eof
  deriving DecidableEq, Repr, Inhabited

/-- A token: its kind and the characters it covers. -/
structure Token where
  kind : TokenKind
  span : Span
  deriving DecidableEq, Repr, Inhabited

/-- The text being read. -/
abbrev Text := Array Char

def charAt (t : Text) (i : Nat) : Char := t.getD i (Char.ofNat 0)

def Text.slice (t : Text) (s : Span) : String := String.ofList (t.extract s.start s.stop).toList

/-- Whether a character ends an atom: punctuation, a blank, a comment sign or a line break. -/
def endsAtom (c : Char) : Bool :=
  c == '.' || c == '=' || c == ',' || c == '[' || c == ']' || c == '{' || c == '}' ||
    c == ' ' || c == '\t' || c == '#' || c == '\r' || c == '\n'

/-- The first place from `i` whose character satisfies `p`, or the end of the text. -/
def findFrom (t : Text) (p : Char → Bool) (i : Nat) : Nat :=
  if h : i < t.size then if p t[i] then i else findFrom t p (i + 1) else t.size
termination_by t.size - i

/-- Where three characters `q` first stand together from `i`, if anywhere. -/
def findTriple (t : Text) (q : Char) (i : Nat) : Option Nat :=
  if h : i < t.size then
    if t[i] == q && charAt t (i + 1) == q && charAt t (i + 2) == q then some i
    else findTriple t q (i + 1)
  else none
termination_by t.size - i

/-- After the closing quotes of a string that spans lines, up to two more quotes belong to its
text. -/
def extraQuotes (t : Text) (q : Char) (i : Nat) : Nat :=
  if charAt t i == q then (if charAt t (i + 1) == q then i + 2 else i + 1) else i

/-- The end of a one-line basic string whose text starts at `i`: after its closing quote, or at
the line break or the end of the text. An escaped quote or backslash does not close it. -/
def basicEnd (t : Text) (i : Nat) : Nat :=
  if h : i < t.size then
    let c := t[i]
    if c == '"' then i + 1
    else if c == '\n' then i
    else if c == '\\' then
      if charAt t (i + 1) == '\\' || charAt t (i + 1) == '"' then basicEnd t (i + 2)
      else basicEnd t (i + 1)
    else basicEnd t (i + 1)
  else t.size
termination_by t.size - i

/-- The end of a basic string spanning lines whose text starts at `i`: after its three closing
quotes and up to two more, or the end of the text. -/
def multiBasicEnd (t : Text) (i : Nat) : Nat :=
  if h : i < t.size then
    let c := t[i]
    if c == '"' && charAt t (i + 1) == '"' && charAt t (i + 2) == '"' then extraQuotes t '"' (i + 3)
    else if c == '\\' then
      if charAt t (i + 1) == '\\' || charAt t (i + 1) == '"' then multiBasicEnd t (i + 2)
      else multiBasicEnd t (i + 1)
    else multiBasicEnd t (i + 1)
  else t.size
termination_by t.size - i

/-- The kind and end of the token starting at `i`, a place inside the text. -/
def tokenAt (t : Text) (i : Nat) : TokenKind × Nat :=
  let c := charAt t i
  if c == '.' then (.dot, i + 1)
  else if c == '=' then (.equals, i + 1)
  else if c == ',' then (.comma, i + 1)
  else if c == '[' then (.openBracket, i + 1)
  else if c == ']' then (.closeBracket, i + 1)
  else if c == '{' then (.openBrace, i + 1)
  else if c == '}' then (.closeBrace, i + 1)
  else if c == ' ' || c == '\t' then (.whitespace, findFrom t (fun d => d != ' ' && d != '\t') (i + 1))
  else if c == '#' then (.comment, findFrom t (fun d => d == '\r' || d == '\n') (i + 1))
  else if c == '\r' then (.newline, if charAt t (i + 1) == '\n' then i + 2 else i + 1)
  else if c == '\n' then (.newline, i + 1)
  else if c == '\'' then
    if charAt t (i + 1) == '\'' && charAt t (i + 2) == '\'' then
      (.multiLiteralString,
        match findTriple t '\'' (i + 3) with
        | some j => extraQuotes t '\'' (j + 3)
        | none => t.size)
    else
      let j := findFrom t (fun d => d == '\'' || d == '\n') (i + 1)
      (.literalString, if charAt t j == '\'' && j < t.size then j + 1 else j)
  else if c == '"' then
    if charAt t (i + 1) == '"' && charAt t (i + 2) == '"' then
      (.multiBasicString, multiBasicEnd t (i + 3))
    else (.basicString, basicEnd t (i + 1))
  else (.atom, findFrom t endsAtom (i + 1))

/-- The tokens from `i` on, ending with the end-of-text token. -/
def tokensFrom (t : Text) (i : Nat) : Nat → List Token
  | 0 => [⟨.eof, ⟨t.size, t.size⟩⟩]
  | fuel + 1 =>
    if i < t.size then
      let (kind, stop) := tokenAt t i
      let stop := max stop (i + 1)
      ⟨kind, ⟨i, stop⟩⟩ :: tokensFrom t stop fuel
    else [⟨.eof, ⟨t.size, t.size⟩⟩]

/-- The tokens of a text from `start` on; every token covers at least one character, so the
text's length bounds their number. -/
def tokenize (t : Text) (start : Nat) : Array Token :=
  (tokensFrom t start (t.size + 1)).toArray

example : (tokenize "a = 1.5".toList.toArray 0).toList.map (·.kind) =
    [.atom, .whitespace, .equals, .whitespace, .atom, .dot, .atom, .eof] := by decide +kernel

end Monorepo.Toml
