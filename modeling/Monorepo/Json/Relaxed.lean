import Monorepo.Json.Read
import Monorepo.Text.Blank
import Monorepo.Text.Alphanumeric

/-! Reading JSON as configuration files write it: with `//` and `/* */` comments, trailing and
missing commas, single-quoted strings, and bare words and numbers as keys. A bare word is made of
letters, digits (both in the Unicode sense) and dashes, and ends at white space or a colon; any
other character in it makes the whole word an unexpected token. Numbers are as in JSON. A text
with no value at all (empty, or only comments) has no document. A failure is reported with its
message and the line and column (both from one, columns in characters) where the offending token
starts. -/

namespace Monorepo.Json.Relaxed

/-- Why a text is not a document. -/
inductive Problem where
  | expectedColon
  | expectedValue
  | expectedDigit
  | expectedDigitAfterMinus
  | expectedExponentDigit
  | multipleRoots
  | unexpectedCloseBrace
  | unexpectedCloseBracket
  | unexpectedColon
  | unexpectedComma
  | unexpectedToken
  | unexpectedTokenInObject
  | unexpectedWord
  | unterminatedArray
  | unterminatedComment
  | unterminatedObject
  | unterminatedString
  | invalidEscape
  | invalidEscapeIn (doubleQuoted : Bool)
  | expectedHexDigits
  | invalidUnicodeEscape (digits : String)
  deriving DecidableEq, Repr

/-- The wording of a problem. -/
def Problem.message : Problem → String
  | .expectedColon => "Expected colon after the string or word in object property"
  | .expectedValue => "Expected value after colon in object property"
  | .expectedDigit => "Expected digit"
  | .expectedDigitAfterMinus => "Expected digit following negative sign"
  | .expectedExponentDigit => "Expected plus, minus, or digit in number literal"
  | .multipleRoots => "Text cannot contain more than one JSON value"
  | .unexpectedCloseBrace => "Unexpected close brace"
  | .unexpectedCloseBracket => "Unexpected close bracket"
  | .unexpectedColon => "Unexpected colon"
  | .unexpectedComma => "Unexpected comma"
  | .unexpectedToken => "Unexpected token"
  | .unexpectedTokenInObject => "Unexpected token in object"
  | .unexpectedWord => "Unexpected word"
  | .unterminatedArray => "Unterminated array"
  | .unterminatedComment => "Unterminated comment block"
  | .unterminatedObject => "Unterminated object"
  | .unterminatedString => "Unterminated string literal"
  | .invalidEscape => "Invalid escape"
  | .invalidEscapeIn true => "Invalid escape in double quote string"
  | .invalidEscapeIn false => "Invalid escape in single quote string"
  | .expectedHexDigits => "Expected four hex digits"
  | .invalidUnicodeEscape digits =>
    s!"Invalid unicode escape sequence. '{digits}' is not a valid UTF8 character"

/-- A problem at a character index of the text. -/
structure Failure where
  problem : Problem
  index : Nat
  deriving Repr

/-- The tokens of the text. -/
inductive Token where
  | openBrace
  | closeBrace
  | openBracket
  | closeBracket
  | comma
  | colon
  | string (s : String)
  | number (text : String)
  | boolean (b : Bool)
  | null
  | word (text : String)
  deriving DecidableEq, Repr, Inhabited

/-- The text as characters. -/
abbrev Text := Array Char

def charAt (t : Text) (i : Nat) : Char := t.getD i (Char.ofNat 0)

def slice (t : Text) (i j : Nat) : String := String.ofList (t.extract i j).toList

/-- The index after the characters from `i` that satisfy `p`. -/
def skipWhile (t : Text) (p : Char → Bool) (i : Nat) : Nat :=
  if h : i < t.size then if p (charAt t i) then skipWhile t p (i + 1) else i else i
termination_by t.size - i

/-- The index of the first `*/` at or after `i`. -/
def commentEnd (t : Text) (i : Nat) : Option Nat :=
  if h : i < t.size then
    if charAt t i == '*' && charAt t (i + 1) == '/' then some i else commentEnd t (i + 1)
  else none
termination_by t.size - i

/-- Skips blanks and comments; fails on a comment block that does not end. -/
def skipTrivia (t : Text) (i : Nat) : Nat → Except Failure Nat
  | 0 => .ok i
  | fuel + 1 =>
    let j := skipWhile t Text.isBlank i
    if charAt t j == '/' && charAt t (j + 1) == '/' then
      skipTrivia t (skipWhile t (· != '\n') j) fuel
    else if charAt t j == '/' && charAt t (j + 1) == '*' then
      match commentEnd t (j + 2) with
      | some e => skipTrivia t (e + 2) fuel
      | none => .error ⟨.unterminatedComment, j⟩
    else .ok j

/-- The value of a hex digit. -/
def hexValue (c : Char) : Option Nat :=
  if c.isDigit then some (c.toNat - 48)
  else if 'a' ≤ c ∧ c ≤ 'f' then some (c.toNat - 87)
  else if 'A' ≤ c ∧ c ≤ 'F' then some (c.toNat - 55)
  else none

/-- Reads a string body after its opening quote at `start`, up to the matching quote. -/
def stringBody (t : Text) (start : Nat) (double : Bool) (i : Nat) (acc : String) :
    Except Failure (String × Nat) :=
  if h : i < t.size then
    let c := charAt t i
    if c == '\\' then
      let e := charAt t (i + 1)
      if i + 1 ≥ t.size then .error ⟨.unterminatedString, start⟩
      else if e == '"' && !double then .error ⟨.invalidEscapeIn false, i⟩
      else if e == '\'' && double then .error ⟨.invalidEscapeIn true, i⟩
      else if e == 'u' then
        let digits := slice t (i + 2) (i + 6)
        match digits.toList.mapM hexValue with
        | some ds =>
          if ds.length < 4 then .error ⟨.expectedHexDigits, i⟩
          else
            let v := ds.foldl (fun a d => a * 16 + d) 0
            if v < 0xD800 || (0xE000 ≤ v && v < 0x110000) then
              stringBody t start double (i + 6) (acc.push (Char.ofNat v))
            else .error ⟨.invalidUnicodeEscape digits, i⟩
        | none => .error ⟨.expectedHexDigits, i⟩
      else
        let simple : Option Char :=
          if e == '"' || e == '\'' || e == '\\' || e == '/' then some e
          else if e == 'b' then some (Char.ofNat 8) else if e == 'f' then some (Char.ofNat 12)
          else if e == 'n' then some '\n' else if e == 'r' then some '\r'
          else if e == 't' then some '\t' else none
        match simple with
        | some ch => stringBody t start double (i + 2) (acc.push ch)
        | none => .error ⟨.invalidEscape, i⟩
    else if (double && c == '"') || (!double && c == '\'') then .ok (acc, i + 1)
    else stringBody t start double (i + 1) (acc.push c)
  else .error ⟨.unterminatedString, start⟩
termination_by t.size - i

/-- Reads a number at `i`: a minus sign, digits, a fraction, an exponent. -/
def numberAt (t : Text) (i : Nat) : Except Failure Nat := do
  let j := if charAt t i == '-' then i + 1 else i
  let j ←
    if charAt t j == '0' then pure (j + 1)
    else if (charAt t j).isDigit then pure (skipWhile t Char.isDigit j)
    else throw ⟨.expectedDigitAfterMinus, j⟩
  let j ←
    if charAt t j == '.' then
      if (charAt t (j + 1)).isDigit then pure (skipWhile t Char.isDigit (j + 1))
      else throw ⟨.expectedDigit, j + 1⟩
    else pure j
  if charAt t j == 'e' || charAt t j == 'E' then
    let k := j + 1
    if charAt t k == '-' || charAt t k == '+' then
      if (charAt t (k + 1)).isDigit then return skipWhile t Char.isDigit (k + 1)
      else throw ⟨.expectedDigit, k + 1⟩
    else if (charAt t k).isDigit then return skipWhile t Char.isDigit k
    else throw ⟨.expectedExponentDigit, k⟩
  else return j

/-- Whether the characters from `i` spell `w` with no letter or digit right after. -/
def wordAt (t : Text) (i : Nat) (w : String) : Bool :=
  (w.toList.zipIdx.all fun (c, k) => charAt t (i + k) == c) &&
    !(i + w.length < t.size && Text.isAlphanumeric (charAt t (i + w.length)))

/-- Scans one token at `i` (after trivia): the token, where it starts and where it ends; none at
the end of the text. -/
def scan (t : Text) (i : Nat) : Except Failure (Option (Token × Nat × Nat)) := do
  let s ← skipTrivia t i (t.size + 1)
  if s ≥ t.size then return none
  let c := charAt t s
  let single (tok : Token) : Except Failure (Option (Token × Nat × Nat)) := pure (some (tok, s, s + 1))
  if c == '{' then single .openBrace
  else if c == '}' then single .closeBrace
  else if c == '[' then single .openBracket
  else if c == ']' then single .closeBracket
  else if c == ',' then single .comma
  else if c == ':' then single .colon
  else if c == '"' || c == '\'' then
    let (str, e) ← stringBody t s (c == '"') (s + 1) ""
    return some (.string str, s, e)
  else if c == '/' then throw ⟨.unexpectedToken, s⟩
  else if c == '-' || c.isDigit then
    let e ← numberAt t s
    return some (.number (slice t s e), s, e)
  else if wordAt t s "true" then return some (.boolean true, s, s + 4)
  else if wordAt t s "false" then return some (.boolean false, s, s + 5)
  else if wordAt t s "null" then return some (.null, s, s + 4)
  else
    let e := skipWhile t (fun ch => !(Text.isBlank ch) && ch != ':' &&
      (Text.isAlphanumeric ch || ch == '-')) s
    let stop := charAt t e
    if e < t.size && !(Text.isBlank stop) && stop != ':' then throw ⟨.unexpectedToken, s⟩
    else return some (.word (slice t s e), s, e)

/-- The JSON number a number token stands for. -/
def numberValue (text : String) : Value :=
  match parse text with
  | .ok v => v
  | .error _ => .string text

/-- The reading position: the current token with its start, and where scanning goes on. -/
structure Cursor where
  token : Option Token
  start : Nat
  next : Nat

/-- Moves to the next token. -/
def advance (t : Text) (c : Cursor) : Except Failure Cursor := do
  match ← scan t c.next with
  | some (tok, s, e) => return ⟨some tok, s, e⟩
  | none => return ⟨none, t.size, t.size⟩

mutual

/-- Reads the value at the current token; none when the text has ended. -/
def value (t : Text) (c : Cursor) : Nat → Except Failure (Option Value × Cursor)
  | 0 => .error ⟨.unexpectedToken, c.start⟩
  | fuel + 1 =>
    match c.token with
    | none => .ok (none, c)
    | some .openBrace => do
      let (ms, c) ← members t c.start [] (← advance t c) fuel
      return (some (.object ms), c)
    | some .openBracket => do
      let (xs, c) ← items t c.start [] (← advance t c) fuel
      return (some (.array xs), c)
    | some (.string s) => .ok (some (.string s), c)
    | some (.boolean b) => .ok (some (.bool b), c)
    | some (.number n) => .ok (some (numberValue n), c)
    | some .null => .ok (some .null, c)
    | some .closeBracket => .error ⟨.unexpectedCloseBracket, c.start⟩
    | some .closeBrace => .error ⟨.unexpectedCloseBrace, c.start⟩
    | some .comma => .error ⟨.unexpectedComma, c.start⟩
    | some .colon => .error ⟨.unexpectedColon, c.start⟩
    | some (.word _) => .error ⟨.unexpectedWord, c.start⟩

/-- Reads the members of an object opened at `open`, the cursor on the token after the brace or
after the last member; ends on the closing brace. -/
def members (t : Text) (open_ : Nat) (acc : Members) (c : Cursor) :
    Nat → Except Failure (Members × Cursor)
  | 0 => .error ⟨.unterminatedObject, open_⟩
  | fuel + 1 =>
    let key : Except Failure (Option String) := match c.token with
      | some .closeBrace => .ok none
      | some (.string s) => .ok (some s)
      | some (.word w) => .ok (some w)
      | some (.number n) => .ok (some n)
      | none => .error ⟨.unterminatedObject, open_⟩
      | some _ => .error ⟨.unexpectedTokenInObject, c.start⟩
    match key with
    | .error e => .error e
    | .ok none => .ok (acc, c)
    | .ok (some key) => do
      let c ← advance t c
      if c.token != some .colon then throw ⟨.expectedColon, c.start⟩
      let c ← advance t c
      let (v, c) ← value t c fuel
      let some v := v | throw ⟨.expectedValue, c.start⟩
      let acc := Members.insert acc key v
      let c ← advance t c
      if c.token == some .comma then members t open_ acc (← advance t c) fuel
      else members t open_ acc c fuel

/-- Reads the items of an array opened at `open`; ends on the closing bracket. -/
def items (t : Text) (open_ : Nat) (acc : List Value) (c : Cursor) :
    Nat → Except Failure (List Value × Cursor)
  | 0 => .error ⟨.unterminatedArray, open_⟩
  | fuel + 1 => do
    match c.token with
    | some .closeBracket => return (acc, c)
    | none => throw ⟨.unterminatedArray, open_⟩
    | some _ =>
      let (v, c) ← value t c fuel
      let some v := v | throw ⟨.unterminatedArray, open_⟩
      let c ← advance t c
      if c.token == some .comma then items t open_ (acc ++ [v]) (← advance t c) fuel
      else items t open_ (acc ++ [v]) c fuel

end

/-- Reads a document; none when the text holds no value. -/
def read (text : String) : Except Failure (Option Value) := do
  let t := text.toList.toArray
  let c ← advance t ⟨none, 0, 0⟩
  let (v, c) ← value t c (2 * t.size + 2)
  match v with
  | none => return none
  | some v =>
    let after ← advance t c
    if after.token.isSome then throw ⟨.multipleRoots, after.start⟩
    return some v

/-- The line and column, both from one, of a character index. -/
def lineAndColumn (text : String) (index : Nat) : Nat × Nat :=
  (text.toList.take index).foldl (fun (line, col) ch =>
    if ch == '\n' then (line + 1, 1) else (line, col + 1)) (1, 1)

/-- The report of a failure: its message and where it is. -/
def Failure.report (f : Failure) (text : String) : String :=
  let (line, column) := lineAndColumn text f.index
  s!"{f.problem.message} on line {line} column {column}"

end Monorepo.Json.Relaxed
