import Monorepo.Script.Grammar

/-! Where a failed read is reported. A reader that recovers from errors weighs the ways of going
on after the token it could not read, and the error is reported where the cheapest of them
changes the text: after the last token read, when one token put there lets the rest read
(a missing operand, semicolon or closing bracket), or at the first of a run of tokens that,
left out, let the rest read. Leaving out tokens is weighed by their number and length; putting
one in costs a little more than leaving out a single short token. Only the shallowest place
where reading could go on after left-out tokens before the failure is tried, as a recovering
reader would stop at the first state that accepts the next token. When no such change lets the
whole text read, or the failure is at the end of the text, the error is reported at the start
of the innermost statement. -/

namespace Monorepo.Script

namespace Reader

/-- Reads statements up to the end of the text. -/
def program (fuel : Nat) : Reader (List Node) := do
  let mut items : List Node := []
  for _ in [0:fuel] do
    let t ← peek
    if t.kind == .eof then break
    modify fun s => { s with top := t.start }
    items := items ++ [← statement fuel]
  let (cs, t) ← peekWithComments
  if t.kind != .eof then fail
  pass cs t
  return items

end Reader

def readSource (jsx : Bool) (src : Source) : Except Failure (List Node × Reader.State) :=
  let fuel := 16 * (src.size + 16)
  ((Reader.program fuel).run ⟨src, jsx⟩).run ⟨0, 0, #[], 0, none, [], 0⟩

namespace Recovery

def perToken : Nat := 100

def perRecovery : Nat := 500

def perMissing : Nat := 610

/-- The most a repair may cost; dearer ones are not believed. -/
def ceiling : Nat := 900

/-- A way of going on after a failure: what it costs, and the byte offset it reports. -/
structure Repair where
  cost : Nat
  offset : Nat
  deriving Repr

/-- The better of two repairs: the cheaper, or on a tie the later. -/
def Repair.better (a b : Repair) : Repair :=
  if a.cost < b.cost then a
  else if b.cost < a.cost then b
  else if a.offset ≥ b.offset then a else b

/-- Binary operators, after which a missing operand is supplied rather than the operator left
out: both readings go on in the same state. -/
def binaryOperators : List String :=
  ["+", "-", "*", "/", "%", "**", "<", ">", "<=", ">=", "==", "!=", "===", "!==", "&&", "||", "??",
   "&", "|", "^", "<<", ">>", ">>>", "instanceof", "in"]

def supplied : List String := [";", " x", ")", "]", "\x7d"]

/-- The tokens from character index `i` on, at most `n` of them and the end of the text. -/
def tokensFrom (src : Source) (i : Nat) : Nat → List Token
  | 0 => []
  | n + 1 =>
    let t := (src.scan i).2
    if t.kind == .eof || t.stop ≤ i then [t] else t :: tokensFrom src t.stop n

/-- Whether a text reads. -/
def reads (jsx : Bool) (text : String) : Bool :=
  match readSource jsx (Source.ofString text) with
  | .ok _ => true
  | .error _ => false

/-- Whether a text reads, or fails no earlier than character index `bound` and before its end:
an error that far on is one of its own, met whichever way the earlier one is repaired, while
one at the end comes from brackets the repair left open. -/
def readsUpTo (jsx : Bool) (text : String) (bound : Nat) : Bool :=
  let src := Source.ofString text
  match readSource jsx src with
  | .ok _ => true
  | .error f => f.stop ≥ bound && f.stop < src.size

/-- Whether reading a text gets past the token starting at character index `i`. -/
def readsPast (jsx : Bool) (text : String) (i : Nat) : Bool :=
  match readSource jsx (Source.ofString text) with
  | .ok _ => true
  | .error f => f.stop > i

/-- The text with the characters from `a` up to `b` left out. -/
def without (src : Source) (a b : Nat) : String := src.slice 0 a ++ src.slice b src.size

/-- Whether a text may end where it does: it reads, and also with a statement after it on its
last line. No semicolon is supplied at the end of the text while recovering, so a text that
reads only by taking its end for one does not count. -/
def endsClosed (jsx : Bool) (text : String) : Bool := reads jsx text && reads jsx (text ++ " x")

/-- Whether, with the characters from `a` up to `b` left out, reading takes the token `next`:
a word the failed reader could not take is tried as a plain name. -/
def takes (jsx : Bool) (src : Source) (a b : Nat) (next : Token) (asName : Bool) : Bool :=
  if next.kind == .eof then endsClosed jsx (src.slice 0 a)
  else
    let tail := if asName then src.slice b next.start ++ "zz" else src.slice b next.stop
    readsPast jsx (src.slice 0 a ++ tail) (a + (next.start - b))

def lineEnd (src : Source) (i : Nat) : Nat := src.skipWhile (· != '\n') i

/-- The repair that leaves out the tokens from `a` up to `b`, skipping `count` tokens, if the
rest then reads up to the line after `next`, the first token kept. -/
def leaveOut (jsx : Bool) (src : Source) (a b count : Nat) (next : Token) : Option Repair :=
  if readsUpTo jsx (without src a b) (lineEnd src next.stop - (b - a)) then
    some ⟨perRecovery + perToken * count + (src.byte b - src.byte a), src.byte a⟩
  else none

/-- The repairs that skip `skipped` tokens from the failed one and as few tokens before it as
let reading take the token after them. `recent` holds the tokens read before the failure, the
latest first. A colon that could not be read is not taken by leaving out tokens before it
alone: the names before it were already read as part of an expression, not as a label. -/
def skipping (jsx : Bool) (src : Source) (recent : List (Nat × Nat)) (after : List Token)
    (skipped : Nat) : Option Repair :=
  match after[skipped]? with
  | none => none
  | some next =>
    if skipped == 0 && Reader.Token.is next ":" then none else
    let failed := ((after.head?).map (·.start)).getD next.start
    let stop :=
      if skipped == 0 then (recent.head?.map (·.2)).getD failed
      else ((after[skipped - 1]?).map (·.stop)).getD failed
    let previous := recent.head?.map fun (a, b) => src.slice a b
    let asName := skipped == 0 && next.kind == .word
    let depths := (List.range (min 4 recent.length + 1)).filter fun d =>
      if skipped == 0 then d ≥ 1 && !(d == 1 && previous.any binaryOperators.contains) else true
    let startOf (d : Nat) : Nat :=
      if d == 0 then failed else ((recent[d - 1]?).map (·.1)).getD failed
    match depths.find? fun d => takes jsx src (startOf d) stop next asName with
    | some d => leaveOut jsx src (startOf d) stop (d + skipped) next
    | none => none

/-- The repair that supplies one missing token after the last token read, if any works. -/
def supplying (jsx : Bool) (src : Source) (recent : List (Nat × Nat)) (failed : Token) :
    Option Repair :=
  match recent.head? with
  | none => none
  | some (_, e) =>
    let works (x : String) : Bool :=
      readsUpTo jsx (src.slice 0 e ++ x ++ src.slice e src.size) (lineEnd src failed.stop + x.length) &&
        (failed.kind != .word ||
          readsPast jsx (src.slice 0 e ++ x ++ src.slice e failed.start ++ "zz")
            (e + x.length + (failed.start - e)))
    if supplied.any works then
      let comments := (src.scan e).1
      let mark := (comments.getLast?.map (·.2)).getD e
      some ⟨perMissing, src.byte mark⟩
    else none

/-- The repair at the end of the text: one closing token supplied after the last token read,
where the text may then end. -/
def closing (jsx : Bool) (src : Source) (recent : List (Nat × Nat)) : Option Repair :=
  match recent.head? with
  | none => none
  | some (_, e) =>
    if supplied.any fun x => endsClosed jsx (src.slice 0 e ++ x) then
      let comments := (src.scan e).1
      some ⟨perMissing, src.byte ((comments.getLast?.map (·.2)).getD e)⟩
    else none

/-- The repair of a string left open at the end of its line `stop`: its closing quote supplied
there, when the token on the next line could follow a string directly rather than only after a
supplied semicolon. -/
def closingQuote (jsx : Bool) (src : Source) (quote : Char) (stop : Nat) : Option Repair :=
  let next := (src.scan stop).2
  let follows := next.kind == .punct &&
    !(["\x7b", "(", "[", "++", "--", "!", "~", "@"].contains next.text)
  if follows && readsUpTo jsx (src.slice 0 stop ++ quote.toString ++ src.slice stop src.size)
      (lineEnd src next.stop + 1) then
    some ⟨perMissing, src.byte stop⟩
  else none

/-- The byte offset at which a failure is reported. -/
def locate (jsx : Bool) (src : Source) (f : Failure) : Nat :=
  if f.decided then f.offset
  else
    let after := tokensFrom src f.stop 5
    match after.head? with
    | none => f.offset
    | some failed =>
      if failed.kind == .eof then ((closing jsx src f.recent).map (·.offset)).getD f.outer
      else if failed.kind == .invalid then
        let quote := src.at failed.start
        if quote == '"' || quote == '\'' then
          let stop := src.skipWhile (fun c => c != '\n' && c != '\r') failed.start
          if (src.scan stop).2.kind == .eof then f.outer
          else ((closingQuote jsx src quote stop).map (·.offset)).getD f.offset
        else f.offset
      else
        let options := (supplying jsx src f.recent failed) ::
          (List.range 4).map (skipping jsx src f.recent after)
        let best := options.foldl (fun acc o =>
          match acc, o with
          | some a, some b => some (a.better b)
          | none, b => b
          | a, none => a) none
        match best with
        | some r => if r.cost ≤ ceiling then r.offset else f.offset
        | none => f.offset

end Recovery

end Monorepo.Script
