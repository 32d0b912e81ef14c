/-! The tokens of TypeScript and JavaScript source. A source is kept as its characters with the
byte offset of each; scanning from a character index skips blanks and comments and reads the
longest token there. Regular expressions, template chunks and JSX text depend on what the reader
expects, so they have scanners of their own that the reader calls at the right places. -/
namespace Monorepo.Script

/-- A source text prepared for scanning. `offsets` holds the byte offset of every character and,
last, the byte length of the text. -/
structure Source where
  text : String
  chars : Array Char
  offsets : Array Nat

/-- Prepares a text for scanning. -/
def Source.ofString (text : String) : Source :=
  let chars := text.toList.toArray
  let offsets := (chars.foldl (fun (acc : Array Nat × Nat) c => (acc.1.push acc.2, acc.2 + c.utf8Size))
    (#[], 0))
  ⟨text, chars, offsets.1.push offsets.2⟩

def Source.size (src : Source) : Nat := src.chars.size

def Source.at (src : Source) (i : Nat) : Char := src.chars.getD i (Char.ofNat 0)

def Source.byte (src : Source) (i : Nat) : Nat := src.offsets.getD i src.text.utf8ByteSize

def Source.slice (src : Source) (i j : Nat) : String :=
  String.ofList ((src.chars.extract i j).toList)

def Source.bytes (src : Source) (start stop : Nat) : String :=
  String.Pos.Raw.extract src.text ⟨start⟩ ⟨stop⟩

/-- Line (from zero) and byte column of a byte offset; only a line feed ends a line. -/
def Source.point (src : Source) (offset : Nat) : Nat × Nat :=
  let rec go (i row lineStart : Nat) (fuel : Nat) : Nat × Nat :=
    match fuel with
    | 0 => (row, offset - lineStart)
    | fuel + 1 =>
      if i < src.size ∧ src.byte i < offset then
        if src.at i == '\n' then go (i + 1) (row + 1) (src.byte (i + 1)) fuel
        else go (i + 1) row lineStart fuel
      else (row, offset - lineStart)
  go 0 0 0 (src.size + 1)

/-- What a token is. -/
inductive TokenKind where
  | word
  | privateName
  | number
  | string
  | template
  | templateHead
  | punct
  | invalid
  | eof
  deriving DecidableEq, Repr

/-- A token: its kind, text, character range, and whether a line break precedes it. -/
structure Token where
  kind : TokenKind
  text : String
  start : Nat
  stop : Nat
  newlineBefore : Bool
  deriving Repr

/-- Blank characters between tokens: Unicode white space, the byte order mark and the
zero-width characters that editors leave behind. -/
def isSpace (c : Char) : Bool :=
  let n := c.toNat
  (9 ≤ n && n ≤ 13) || n == 32 || n == 0xA0 || n == 0x1680 || (0x2000 ≤ n && n ≤ 0x200B) ||
  n == 0x2028 || n == 0x2029 || n == 0x202F || n == 0x205F || n == 0x3000 || n == 0xFEFF ||
  n == 0x2060 || n == 0x85

/-- Characters that end a name: controls, blanks and punctuation. -/
def isNameStop (c : Char) : Bool :=
  c.toNat < 32 || isSpace c || ":;`\"'@#.,|^&<=>+-*/\\%?!~()[]\x7b\x7d".contains c

def isNameStart (c : Char) : Bool := !isNameStop c && !c.isDigit

def isNamePart (c : Char) : Bool := !isNameStop c

def isHexDigit (c : Char) : Bool :=
  c.isDigit || ('a' ≤ c && c ≤ 'f') || ('A' ≤ c && c ≤ 'F')

/-- Punctuators, longest first so that the first match is the longest. -/
def punctuators : List String :=
  ["...", "===", "!==", "**=", "<<=", "&&=", "||=", "??=", "=>", "==", "!=", "<=", "&&", "||",
   "??", "?.", "++", "--", "+=", "-=", "*=", "/=", "%=", "&=", "|=", "^=", "**", "<<",
   "\x7b", "\x7d", "(", ")", "[", "]", ";", ",", "<", ">", "+", "-", "*", "/", "%", "&", "|", "^", "!",
   "~", "?", ":", "=", ".", "@"]

namespace Source

/-- Whether the characters from `i` spell `s`. -/
def startsAt (src : Source) (i : Nat) (s : String) : Bool :=
  let rec go (j : Nat) : List Char → Bool
    | [] => true
    | c :: cs => src.at j == c && j < src.size && go (j + 1) cs
  go i s.toList

/-- The index after the characters from `i` that satisfy `p`. -/
def skipWhile (src : Source) (p : Char → Bool) (i : Nat) : Nat :=
  if _h : i < src.size then
    if p (src.at i) then src.skipWhile p (i + 1) else i
  else i
termination_by src.size - i

/-- The index after a `/*` comment starting at `i`, or none when it is not closed. -/
def blockCommentEnd (src : Source) (i : Nat) : Option Nat :=
  if _h : i < src.size then
    if src.at i == '*' && src.at (i + 1) == '/' && i + 1 < src.size then some (i + 2)
    else src.blockCommentEnd (i + 1)
  else none
termination_by src.size - i

/-- Whether a comment that runs to the end of its line starts at `i`: `//`, a `#!` line at the
very start of the text, or, at the start of a line, an HTML comment mark `<!--` or `-->`. -/
def lineCommentAt (src : Source) (i : Nat) (lineStart : Bool) : Bool :=
  (src.at i == '/' && src.at (i + 1) == '/' && i + 1 < src.size) ||
  (i == 0 && src.startsAt 0 "#!") ||
  (lineStart && (src.startsAt i "<!--" || src.startsAt i "-->"))

/-- Whether a character continues a comment that runs to the end of its line: a `//` comment
stops before any line terminator, the other kinds at a line feed only. -/
def inLineComment (slashes : Bool) (c : Char) : Bool :=
  c != '\n' && !(slashes && (c == '\r' || c == '\u2028' || c == '\u2029'))

/-- Skips blanks and comments from `i`; `lineStart` tells whether only blanks and comments stand
before `i` on its line. Returns the next index, the comments passed (as character ranges),
whether a line break was passed, and whether a comment was left open. -/
def skipTrivia (src : Source) (i : Nat) (comments : List (Nat × Nat)) (newline lineStart : Bool) :
    Nat × List (Nat × Nat) × Bool × Bool :=
  if _h : i < src.size then
    let c := src.at i
    if isSpace c then src.skipTrivia (i + 1) comments (newline || c == '\n') (lineStart || c == '\n')
    else if src.lineCommentAt i lineStart then
      let e := src.skipWhile (inLineComment (src.at i == '/')) i
      if e > i then src.skipTrivia e (comments ++ [(i, e)]) newline lineStart
      else (i, comments, newline, false)
    else if c == '/' && src.at (i + 1) == '*' && i + 1 < src.size then
      match src.blockCommentEnd (i + 2) with
      | some e =>
        if e > i then
          let crossed := (src.slice i e).contains '\n'
          src.skipTrivia e (comments ++ [(i, e)]) (newline || crossed) lineStart
        else (i, comments, newline, false)
      | none => (i, comments, newline, true)
    else (i, comments, newline, false)
  else (i, comments, newline, false)
termination_by src.size - i

/-- The index after a name starting at `i`: name characters and `\u` escapes, either four hex
digits or hex digits in braces. `fuel` bounds the number of steps. -/
def nameEnd (src : Source) (i : Nat) : Nat → Nat
  | 0 => i
  | fuel + 1 =>
    let c := src.at i
    if i ≥ src.size then i
    else if isNamePart c then src.nameEnd (i + 1) fuel
    else if c == '\\' && src.at (i + 1) == 'u' then
      if src.at (i + 2) == '\x7b' then
        let e := src.skipWhile isHexDigit (i + 3)
        if src.at e == '\x7d' && e > i + 3 then src.nameEnd (e + 1) fuel else i
      else if (List.range 4).all (fun k => isHexDigit (src.at (i + 2 + k))) then src.nameEnd (i + 6) fuel
      else i
    else i

/-- The index after digits of the class `p`, allowing single underscores between digits. -/
def digitsEnd (src : Source) (p : Char → Bool) (i : Nat) : Nat :=
  if _h : i < src.size then
    let c := src.at i
    if p c then src.digitsEnd p (i + 1)
    else if c == '_' && i > 0 && p (src.at (i - 1)) && p (src.at (i + 1)) then src.digitsEnd p (i + 1)
    else i
  else i
termination_by src.size - i

/-- The index after a number literal starting at `i`. -/
def numberEnd (src : Source) (i : Nat) : Nat :=
  let c := src.at i
  let d := src.at (i + 1)
  let radix (p : Char → Bool) : Nat :=
    let e := src.digitsEnd p (i + 2)
    if src.at e == 'n' then e + 1 else e
  if c == '0' && (d == 'x' || d == 'X') && isHexDigit (src.at (i + 2)) then radix isHexDigit
  else if c == '0' && (d == 'o' || d == 'O') && ('0' ≤ src.at (i + 2) && src.at (i + 2) ≤ '7') then
    radix fun ch => '0' ≤ ch && ch ≤ '7'
  else if c == '0' && (d == 'b' || d == 'B') && (src.at (i + 2) == '0' || src.at (i + 2) == '1') then
    radix fun ch => ch == '0' || ch == '1'
  else
    let intEnd := if c == '.' then i else src.digitsEnd Char.isDigit i
    let (afterFraction, hasFraction) :=
      if src.at intEnd == '.' then (src.digitsEnd Char.isDigit (intEnd + 1), true)
      else (intEnd, false)
    let e := src.at afterFraction
    let expStart :=
      if (e == 'e' || e == 'E') then
        let s := src.at (afterFraction + 1)
        if s.isDigit then some (afterFraction + 1)
        else if (s == '+' || s == '-') && (src.at (afterFraction + 2)).isDigit then some (afterFraction + 2)
        else none
      else none
    match expStart with
    | some j => src.digitsEnd Char.isDigit j
    | none =>
      if !hasFraction && src.at afterFraction == 'n' then afterFraction + 1 else afterFraction

/-- The index after a quoted string whose opening quote is at `i - 1`, or none when a line
break or the end comes first. -/
def stringEnd (src : Source) (quote : Char) (i : Nat) : Option Nat :=
  if _h : i < src.size then
    let c := src.at i
    if c == quote then some (i + 1)
    else if c == '\\' then
      if i + 1 < src.size then
        if src.at (i + 1) == '\r' && src.at (i + 2) == '\n' then src.stringEnd quote (i + 3)
        else src.stringEnd quote (i + 2)
      else none
    else if c == '\n' then none
    else src.stringEnd quote (i + 1)
  else none
termination_by src.size - i

/-- The index after a template chunk starting at `i`: it ends after a backtick (`true`) or
after `${` (`false`); none when the text ends first. -/
def templateEnd (src : Source) (i : Nat) : Option (Nat × Bool) :=
  if _h : i < src.size then
    let c := src.at i
    if c == '`' then some (i + 1, true)
    else if c == '$' && src.at (i + 1) == '{' && i + 1 < src.size then some (i + 2, false)
    else if c == '\\' then src.templateEnd (i + 2)
    else src.templateEnd (i + 1)
  else none
termination_by src.size - i

/-- The index after a regular expression whose opening slash is at `i - 1`; a slash inside a
class does not end it. -/
def regexEnd (src : Source) (inClass : Bool) (i : Nat) : Option Nat :=
  if _h : i < src.size then
    let c := src.at i
    if c == '\n' then none
    else if c == '\\' then src.regexEnd inClass (i + 2)
    else if c == '[' then src.regexEnd true (i + 1)
    else if c == ']' then src.regexEnd false (i + 1)
    else if c == '/' && !inClass then some (src.skipWhile isNamePart (i + 1))
    else src.regexEnd inClass (i + 1)
  else none
termination_by src.size - i

def punctAt (src : Source) (i : Nat) : Option String :=
  punctuators.find? (src.startsAt i ·)

/-- The comments and the token that follow index `i`. -/
def scan (src : Source) (i : Nat) : List (Nat × Nat) × Token :=
  let (j, comments, newline, openComment) := src.skipTrivia i [] false (i == 0)
  let mk (kind : TokenKind) (stop : Nat) : Token :=
    ⟨kind, src.slice j stop, j, stop, newline⟩
  if openComment then (comments, mk .invalid src.size)
  else if j ≥ src.size then (comments, mk .eof j)
  else
    let c := src.at j
    let tok :=
      if isNameStart c || (c == '\\' && src.at (j + 1) == 'u') then mk .word (src.nameEnd j src.size)
      else if c == '#' && isNameStart (src.at (j + 1)) then
        mk .privateName (src.skipWhile isNamePart (j + 1))
      else if c.isDigit || (c == '.' && (src.at (j + 1)).isDigit) then mk .number (src.numberEnd j)
      else if c == '"' || c == '\'' then
        match src.stringEnd c (j + 1) with
        | some e => mk .string e
        | none => mk .invalid (j + 1)
      else if c == '`' then
        match src.templateEnd (j + 1) with
        | some (e, true) => mk .template e
        | some (e, false) => mk .templateHead e
        | none => mk .invalid (j + 1)
      else
        match src.punctAt j with
        | some p => mk .punct (j + p.length)
        | none => mk .invalid (j + 1)
    (comments, tok)

def indexOf (src : Source) (byte : Nat) : Nat :=
  (src.offsets.findIdx? (· ≥ byte)).getD src.size

/-- The spaces and tabs that start the line holding a byte offset. -/
def lineIndent (src : Source) (byte : Nat) : String :=
  let i := src.indexOf byte
  let before := (src.chars.extract 0 i).toList
  let lineStart := before.length - (before.reverse.takeWhile (· != '\n')).length
  let line := (src.chars.extract lineStart src.size).toList
  String.ofList (line.takeWhile fun c => c == ' ' || c == '\t')

def row (src : Source) (byte : Nat) : Nat := (src.point byte).1

/-- A regular expression token at `i`, which holds a slash. -/
def scanRegex (src : Source) (i : Nat) (newline : Bool) : Option Token :=
  (src.regexEnd false (i + 1)).map fun e => ⟨.punct, src.slice i e, i, e, newline⟩

/-- The template chunk after a substitution's closing brace at `i`: it ends the template
(`true`) or opens another substitution. -/
def scanTemplateChunk (src : Source) (i : Nat) : Option (Token × Bool) :=
  (src.templateEnd (i + 1)).map fun (e, closed) =>
    (⟨if closed then .template else .templateHead, src.slice i e, i, e, false⟩, closed)

end Source

end Monorepo.Script
