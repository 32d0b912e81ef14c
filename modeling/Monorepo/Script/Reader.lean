import Monorepo.Script.Syntax

/-! The reading state shared by the grammar: a position in the source, the comments passed so
far, the start of the innermost statement (where a failed read is reported by default), and a
note on where an object literal that opens the next expression would have to be abandoned if it
were taken for a destructuring pattern. -/

namespace Monorepo.Script

/-- A failed read. `offset` is the byte offset reported when nothing better is known, or the
final one when `decided` holds; `outer` is the byte offset of the statement of the whole text
that holds the failure; `stop` is the character index of the token that could not be read, and
`recent` the character ranges of the tokens read before it, the latest first. -/
structure Failure where
  offset : Nat
  outer : Nat
  stop : Nat
  recent : List (Nat × Nat)
  decided : Bool
  deriving Repr

/-- What the reader knows besides its position: the source and whether JSX is allowed. -/
structure Reader.Context where
  src : Source
  jsx : Bool

/-- The position of a reader, with the character ranges of the last few tokens read, the latest
first, and the start of the statement of the whole text being read. -/
structure Reader.State where
  pos : Nat
  lastEnd : Nat
  comments : Array (Nat × Nat)
  statement : Nat
  region : Option (Nat × Nat)
  recent : List (Nat × Nat)
  top : Nat

/-- Readers of source text. A reader that fails restores nothing by itself; `attempt` runs one
and rewinds when it fails. -/
abbrev Reader := ReaderT Reader.Context (StateT Reader.State (Except Failure))

namespace Reader

def source : Reader Source := return (← read).src

def jsx : Reader Bool := return (← read).jsx

/-- The next token and the comments before it, without moving. -/
def peekWithComments : Reader (List (Nat × Nat) × Token) := do
  return (← source).scan (← get).pos

def peek : Reader Token := return (← peekWithComments).2

/-- Moves past `t`, which was scanned after the comments `cs`. -/
def pass (cs : List (Nat × Nat)) (t : Token) : Reader Unit :=
  modify fun s => { s with pos := t.stop, lastEnd := t.stop, comments := s.comments ++ cs.toArray,
                           recent := ((t.start, t.stop) :: s.recent).take 6 }

/-- Reads the next token. -/
def next : Reader Token := do
  let (cs, t) ← peekWithComments
  pass cs t
  return t

def leafOf (t : Token) (k : Kind) : Reader Node := do
  let src ← source
  return Node.leaf k (src.byte t.start) (src.byte t.stop)

def tokenLeaf (t : Token) : Reader Node := leafOf t (.token t.text)

/-- Fails at the next token; unless a better place is found, the failure is reported at the
start of the innermost statement. -/
def fail {α : Type} : Reader α := do
  let t ← peek
  let s ← get
  let src ← source
  throw ⟨src.byte s.statement, src.byte s.top, t.start, s.recent, false⟩

/-- Fails at the next token, reported at a byte offset. -/
def failAt {α : Type} (offset : Nat) : Reader α := do
  let t ← peek
  let s ← get
  throw ⟨offset, (← source).byte s.top, t.start, s.recent, true⟩

def Token.is (t : Token) (s : String) : Bool :=
  (t.kind == .punct || t.kind == .word) && t.text == s

def isAt (s : String) : Reader Bool := return Token.is (← peek) s

def isAtAny (ss : List String) : Reader Bool := do
  let t ← peek
  return ss.any (Token.is t)

/-- Reads the token `s` as an unnamed leaf, or fails. -/
def expect (s : String) : Reader Node := do
  let t ← peek
  if Token.is t s then
    let _ ← next
    tokenLeaf t
  else fail

/-- Reads the token `s` if it comes next. -/
def accept (s : String) : Reader (Option Node) := do
  let t ← peek
  if Token.is t s then
    let _ ← next
    return some (← tokenLeaf t)
  else return none

/-- Reads the next token when it satisfies `p`, and fails before it otherwise. -/
def nextIf (p : Token → Bool) : Reader Token := do
  let t ← peek
  if p t then next else fail

def nextWord : Reader Token := nextIf (·.kind == .word)

def nextString : Reader Token := nextIf (·.kind == .string)

def attempt {α : Type} (p : Reader α) : Reader (Option α) :=
  tryCatch (some <$> p) fun _ => pure none

def peekSecond : Reader Token := do
  let t ← peek
  return ((← source).scan t.stop).2

def isSecond (s : String) : Reader Bool := return Token.is (← peekSecond) s

/-- Runs `p` as a statement starting at the next token: failures inside it are reported at
that token unless an inner statement takes over. -/
def withinStatement {α : Type} (p : Reader α) : Reader α := do
  let t ← peek
  let outer := (← get).statement
  modify fun s => { s with statement := t.start }
  let r ← p
  modify fun s => { s with statement := outer }
  return r

/-- Notes that an object literal starting at the next token would be abandoned at `offset`. -/
def noteRegion (offset : Nat) : Reader Unit := do
  let t ← peek
  modify fun s => { s with region := some (t.start, offset) }

/-- Notes that an object literal starting at the next token would be abandoned at its own
opening brace. -/
def noteOwnRegion : Reader Unit := do
  let t ← peek
  let src ← source
  noteRegion (src.byte t.start)

/-- Where an object literal whose brace is the token `t` would be abandoned. -/
def regionOf (t : Token) : Reader Nat := do
  let src ← source
  match (← get).region with
  | some (start, offset) => return if start == t.start then offset else src.byte t.start
  | none => return src.byte t.start

/-- Ends a statement: a semicolon, or none before a closing brace, the end of the text or a
line break. A statement ended without a semicolon takes in the comments that follow it on its
last line, marked by an empty token where the last of them ends. -/
def semicolon : Reader (List Node) := do
  let (cs, t) ← peekWithComments
  if Token.is t ";" then
    let _ ← next
    return [← tokenLeaf t]
  else if Token.is t "\x7d" || t.kind == .eof || t.newlineBefore then
    let src ← source
    let lastEnd := (← get).lastEnd
    let sameLine := cs.takeWhile fun (a, _) => !(src.slice lastEnd a).contains '\n'
    match sameLine.getLast? with
    | some (_, e) => return [Node.leaf (.token "") (src.byte e) (src.byte e)]
    | none => return []
  else fail

/-- Skips tokens from an opening bracket to its match and gives the index after the closer.
Template substitutions count as brackets; `fuel` bounds the number of tokens. -/
def matchingEnd (src : Source) (i : Nat) (fuel : Nat) : Option Nat :=
  go i [] fuel
where
  go (i : Nat) (stack : List Char) : Nat → Option Nat
    | 0 => none
    | fuel + 1 =>
      let t := (src.scan i).2
      if t.kind == .eof || t.kind == .invalid then none
      else if t.kind == .templateHead then go t.stop ('t' :: stack) fuel
      else if t.kind == .punct && (t.text == "(" || t.text == "[" || t.text == "\x7b") then
        go t.stop ((if t.text == "(" then ')' else if t.text == "[" then ']' else '}') :: stack) fuel
      else if t.kind == .punct && (t.text == ")" || t.text == "]" || t.text == "\x7d") then
        match stack with
        | 't' :: rest =>
          if t.text == "\x7d" then
            match src.scanTemplateChunk t.start with
            | some (chunk, true) => if rest.isEmpty then some chunk.stop else go chunk.stop rest fuel
            | some (chunk, false) => go chunk.stop stack fuel
            | none => none
          else none
        | [c] => if t.text == c.toString then some t.stop else none
        | c :: rest => if t.text == c.toString then go t.stop rest fuel else none
        | [] => none
      else go t.stop stack fuel

/-- The token after the bracketed group that starts with the next token. -/
def afterGroup : Reader (Option Token) := do
  let src ← source
  let t ← peek
  match matchingEnd src t.start (src.size + 1) with
  | some e => return some (src.scan e).2
  | none => return none

end Reader

end Monorepo.Script
