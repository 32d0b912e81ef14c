import Monorepo.Toml.Events

/-! What keys and scalars of a TOML document say. A key is bare (letters, digits, dashes and
underscores) or a one-line string. A scalar is a string in one of four quotings, a boolean, an
integer in one of four bases, a float, or a date and time, which is told by a dash or colon right
after its leading digits.

Each refusal points at the character that is wrong, counted from the start of the key or
scalar: a number sign given twice, a sign or capital letter on a base prefix, a digit outside
the base, a leading zero, an underscore not standing between two digits, a misspelt word, an
unknown escape, too few digits or an impossible character in a unicode escape, or a character
that may not stand in the string. Basic strings read the escapes `\b \e \f \n \r \t \\ \"` and
`\xHH \uHHHH \UHHHHHHHH`; a backslash at the end of a line of a string spanning lines drops the
line break and the blanks after it. -/

namespace Monorepo.Toml

/-- What kind of value a scalar is; an integer carries its base. -/
inductive ScalarKind where
  | string
  | boolean (b : Bool)
  | datetime
  | float
  | integer (radix : Nat)
  deriving DecidableEq, Repr

/-- A scalar read: its kind and its text, with quotes dropped and escapes resolved for a
string, and digit separators and any base prefix dropped for a number. -/
structure Decoded where
  kind : ScalarKind
  text : String
  deriving DecidableEq, Repr

namespace Scalar

/-- Refuses at a range counted from the start of the key or scalar. -/
def refuse {α : Type} (message : String) (expected : Option (List Expected)) (start stop : Nat) :
    Except Problem α :=
  .error ⟨message, expected, ⟨start, stop⟩⟩

/-- The value of a hexadecimal digit. -/
def hexValue (c : Char) : Nat :=
  if c.isDigit then c.toNat - 48
  else if 'a' ≤ c ∧ c ≤ 'f' then c.toNat - 87
  else if 'A' ≤ c ∧ c ≤ 'F' then c.toNat - 55
  else 0

def isHexDigit (c : Char) : Bool :=
  c.isDigit || ('a' ≤ c && c ≤ 'f') || ('A' ≤ c && c ≤ 'F')

/-- Whether a character stands for itself in a one-line basic string. -/
def isBasicChar (c : Char) : Bool :=
  c == ' ' || c == '\t' || c == '!' || ('#' ≤ c && c ≤ '[') || (']' ≤ c && c ≤ '~') ||
    c.toNat ≥ 0x80

/-- Whether a character may stand in a one-line literal string. -/
def isLiteralChar (c : Char) : Bool :=
  c == '\t' || (' ' ≤ c && c ≤ '&') || ('(' ≤ c && c ≤ '~') || c.toNat ≥ 0x80

/-- Whether a character may stand in a literal string spanning lines, line breaks apart. -/
def isMultiLiteralChar (c : Char) : Bool :=
  c == '\t' || (' ' ≤ c && c ≤ '~') || c.toNat ≥ 0x80

def isKeyChar (c : Char) : Bool :=
  (c.isAlphanum && c.toNat < 0x80) || c == '-' || c == '_'

/-- The escapes a basic string knows, as a refusal lists them. -/
def escapes : List Expected :=
  ["b", "e", "f", "n", "r", "\\", "\"", "x", "u", "U"].map .literal

/-- A unicode escape of `n` hexadecimal digits at `pos`: the character, the rest and the place
after it. -/
def hexEscape (cs : List Char) (pos n : Nat) : Except Problem (Char × List Char × Nat) :=
  let digits := (cs.takeWhile isHexDigit).take n
  if digits.length != n then
    refuse "too few unicode value digits" (some [.description "unicode hexadecimal value"])
      (pos + digits.length) (pos + digits.length)
  else
    let v := digits.foldl (fun a d => a * 16 + hexValue d) 0
    if v < 0xD800 || (0xE000 ≤ v && v ≤ 0x10FFFF) then .ok (Char.ofNat v, cs.drop n, pos + n)
    else refuse "invalid value" (some [.description "unicode hexadecimal value"]) pos pos

/-- The character an escape stands for, with the rest and the place after it; `pos` is the
place right after the backslash. -/
def escape (cs : List Char) (pos : Nat) : Except Problem (Char × List Char × Nat) :=
  match cs with
  | [] => refuse "missing escaped value" (some escapes) pos pos
  | c :: rest =>
    let simple : Option Char :=
      if c == 'b' then some (Char.ofNat 8) else if c == 'e' then some (Char.ofNat 27)
      else if c == 'f' then some (Char.ofNat 12) else if c == 'n' then some '\n'
      else if c == 'r' then some '\r' else if c == 't' then some '\t'
      else if c == '\\' then some '\\' else if c == '"' then some '"' else none
    match simple with
    | some ch => .ok (ch, rest, pos + 1)
    | none =>
      if c == 'x' then hexEscape rest (pos + 1) 2
      else if c == 'u' then hexEscape rest (pos + 1) 4
      else if c == 'U' then hexEscape rest (pos + 1) 8
      else refuse "missing escaped value" (some escapes) pos pos

/-- Passes over blanks and line breaks. -/
def skipBlankLines : List Char → Nat → List Char × Nat
  | ' ' :: rest, pos => skipBlankLines rest (pos + 1)
  | '\t' :: rest, pos => skipBlankLines rest (pos + 1)
  | '\n' :: rest, pos => skipBlankLines rest (pos + 1)
  | '\r' :: '\n' :: rest, pos => skipBlankLines rest (pos + 2)
  | cs, pos => (cs, pos)

/-- After a backslash ending a line of a string spanning lines: blanks, the line break, and the
blanks and line breaks after it are dropped. -/
def escapedNewline (cs : List Char) (pos : Nat) : Except Problem (List Char × Nat) :=
  let blanks := (cs.takeWhile fun c => c == ' ' || c == '\t').length
  let pos := pos + blanks
  match cs.drop blanks with
  | '\n' :: rest => .ok (skipBlankLines rest (pos + 1))
  | '\r' :: '\n' :: rest => .ok (skipBlankLines rest (pos + 2))
  | '\r' :: _ =>
    refuse "carriage return must be followed by newline" (some [.literal "\n"]) (pos + 1) (pos + 1)
  | _ => refuse "invalid multi-line basic string" (some [.literal "\n"]) pos pos

/-- Whether a character stands for itself in a basic string (`multi` for one spanning lines,
where quotes and line breaks may stand too); `rest` follows it. -/
def standsForItself (multi : Bool) (c : Char) (rest : List Char) : Bool :=
  isBasicChar c || (multi && (c == '"' || c == '\n' || (c == '\r' && rest.head? == some '\n')))

/-- The length of the run of characters from the start that may not stand in a basic string. -/
def badRun (multi : Bool) : List Char → Nat
  | [] => 0
  | c :: rest => if c == '\\' || standsForItself multi c rest then 0 else badRun multi rest + 1

/-- Reads the text of a basic string from `pos`, resolving escapes. -/
def basicText (multi : Bool) (invalid : String) : Nat → List Char → Nat → String →
    Except Problem String
  | 0, _, _, acc => .ok acc
  | _ + 1, [], _, acc => .ok acc
  | fuel + 1, c :: rest, pos, acc =>
    if c == '\\' then
      match rest with
      | d :: _ =>
        if multi && (d == ' ' || d == '\t' || d == '\r' || d == '\n') then do
          let (cs, pos) ← escapedNewline rest (pos + 1)
          basicText multi invalid fuel cs pos acc
        else do
          let (ch, cs, pos) ← escape rest (pos + 1)
          basicText multi invalid fuel cs pos (acc.push ch)
      | [] => do
        let (ch, cs, pos) ← escape [] (pos + 1)
        basicText multi invalid fuel cs pos (acc.push ch)
    else if standsForItself multi c rest then basicText multi invalid fuel rest (pos + 1) (acc.push c)
    else
      refuse invalid (some [.description "non-double-quote visible characters", .literal "\\"])
        pos (pos + badRun multi (c :: rest))

/-- Drops a line break right after the opening quotes of a string spanning lines. -/
def dropFirstNewline : List Char → Nat → List Char × Nat
  | '\n' :: rest, pos => (rest, pos + 1)
  | '\r' :: '\n' :: rest, pos => (rest, pos + 2)
  | cs, pos => (cs, pos)

def endsWithThree (q : Char) (cs : List Char) : Bool :=
  cs.length ≥ 3 && cs.drop (cs.length - 3) == [q, q, q]

/-- A one-line basic string. -/
def basicString (raw : List Char) : Except Problem String := do
  let invalid := "invalid basic string"
  let body ← match raw with
    | '"' :: rest => pure rest
    | _ => refuse invalid (some [.literal "\""]) 0 0
  let body ← if body.getLast? == some '"' then pure body.dropLast
    else refuse invalid (some [.literal "\""]) raw.length raw.length
  basicText false invalid (body.length + 1) body 1 ""

/-- A basic string spanning lines. -/
def multiBasicString (raw : List Char) : Except Problem String := do
  let invalid := "invalid multi-line basic string"
  let body ← match raw with
    | '"' :: '"' :: '"' :: rest => pure rest
    | _ => refuse invalid (some [.literal "\""]) 0 0
  let (body, pos) := dropFirstNewline body 3
  let body ← if endsWithThree '"' body then pure (body.take (body.length - 3))
    else refuse invalid (some [.literal "\""]) raw.length raw.length
  basicText true invalid (body.length + 1) body pos ""

/-- The first place from `pos` of a character that `ok` refuses, given what follows it. -/
def firstBad (ok : Char → List Char → Bool) : List Char → Nat → Option Nat
  | [], _ => none
  | c :: rest, pos => if ok c rest then firstBad ok rest (pos + 1) else some pos

/-- A one-line literal string. -/
def literalString (raw : List Char) : Except Problem String := do
  let invalid := "invalid literal string"
  let body ← match raw with
    | '\'' :: rest => pure rest
    | _ => refuse invalid (some [.literal "'"]) 0 0
  let body ← if body.getLast? == some '\'' then pure body.dropLast
    else refuse invalid (some [.literal "'"]) raw.length raw.length
  match firstBad (fun c _ => isLiteralChar c) body 1 with
  | some i => refuse invalid (some [.description "non-single-quote visible characters"]) i i
  | none => pure (String.ofList body)

/-- A literal string spanning lines. -/
def multiLiteralString (raw : List Char) : Except Problem String := do
  let invalid := "invalid multi-line literal string"
  let body ← match raw with
    | '\'' :: '\'' :: '\'' :: rest => pure rest
    | _ => refuse invalid (some [.literal "'"]) 0 0
  let (body, pos) := dropFirstNewline body 3
  let body ← if endsWithThree '\'' body then pure (body.take (body.length - 3))
    else refuse invalid (some [.literal "'"]) raw.length raw.length
  let ok (c : Char) (rest : List Char) : Bool :=
    isMultiLiteralChar c || c == '\n' || (c == '\r' && rest.head? == some '\n')
  match firstBad ok body pos with
  | some i => refuse invalid (some [.description "non-single-quote visible characters"]) i i
  | none => pure (String.ofList body)

/-- The text of a string in any quoting. -/
def string (encoding : Encoding) (raw : List Char) : Except Problem String :=
  match encoding with
  | .literal => literalString raw
  | .basic => basicString raw
  | .multiLiteral => multiLiteralString raw
  | .multiBasic => multiBasicString raw

/-- What a key part says: a bare key, or a one-line string. -/
def key (encoding : Option Encoding) (raw : List Char) : Except Problem String :=
  let keyChars := some [.description "letters", .description "numbers", .literal "-", .literal "_"]
  match encoding with
  | none =>
    if raw.isEmpty then refuse "unquoted keys cannot be empty" keyChars 0 0
    else if raw.all isKeyChar then .ok (String.ofList raw)
    else refuse "invalid unquoted key" keyChars 0 raw.length
  | some .multiLiteral =>
    refuse "keys cannot be multi-line literal strings"
      (some [.description "basic string", .description "literal string"]) 0 raw.length
  | some .multiBasic =>
    refuse "keys cannot be multi-line basic strings"
      (some [.description "basic string", .description "literal string"]) 0 raw.length
  | some e => string e raw

def unquoted {α : Type} (raw : List Char) : Except Problem α :=
  refuse "string values must be quoted" (some [.description "literal string"]) 0 raw.length

/-- A word such as `true` or `inf`, refused as a whole when misspelt. -/
def symbol (raw : List Char) (word : String) (kind : ScalarKind) (invalid : String) :
    Except Problem Decoded :=
  if raw == word.toList then .ok ⟨kind, word⟩
  else if raw.contains ' ' then unquoted raw
  else refuse invalid (some [.literal word]) 0 raw.length

def isDigitOf (radix : Nat) (c : Char) : Bool :=
  isHexDigit c && hexValue c < radix

/-- Each underscore must stand between two digits. -/
def checkUnderscores (digit : Char → Bool) : Option Char → List Char → Nat → Except Problem Unit
  | _, [], _ => .ok ()
  | prev, c :: rest, pos =>
    if c == '_' && (!(prev.any digit) || !(rest.head?.any digit)) then
      refuse "`_` may only go between digits" (some []) pos (pos + 1)
    else checkUnderscores digit (some c) rest (pos + 1)

/-- A number whose digits are `stream`, at `pos`: its underscores are checked and dropped. -/
def number (kind : ScalarKind) (stream : List Char) (pos : Nat) : Except Problem Decoded := do
  let digit := match kind with
    | .integer 16 => isHexDigit
    | _ => Char.isDigit
  checkUnderscores digit none stream pos
  pure ⟨kind, String.ofList (stream.filter (· != '_'))⟩

/-- The digits after a base prefix: no sign, and only digits of the base or underscores. -/
def checkRadixDigits (radix : Nat) (invalid : String) (stream : List Char) (pos : Nat) :
    Except Problem Unit := do
  if stream.head? == some '+' || stream.head? == some '-' then
    refuse "unexpected sign" (some []) pos (pos + 1)
  match firstBad (fun c _ => isDigitOf radix c || c == '_') stream pos with
  | some i => refuse invalid none i (i + 1)
  | none => pure ()

def checkLeadingZero (value : List Char) (pos : Nat) : Except Problem Unit :=
  if value.head? == some '0' then refuse "unexpected leading zero" (some []) pos (pos + 1)
  else .ok ()

/-- A run of decimal digits and underscores at `pos` with at least one digit, and no leading
zero unless `zeros` allows one; gives what follows and its place. -/
def decimalRun (cs : List Char) (pos : Nat) (zeros : Bool) (invalid : String) :
    Except Problem (List Char × Nat) :=
  let run := cs.takeWhile fun c => c.isDigit || c == '_'
  let digits := (run.filter Char.isDigit).length
  if digits == 0 then refuse invalid (some [.description "digits"]) pos pos
  else if digits ≥ 2 && cs.head? == some '0' && !zeros then
    refuse "unexpected leading zero" (some []) pos (pos + 1)
  else .ok (cs.drop run.length, pos + run.length)

/-- A float's shape: digits, then an optional fraction and an optional exponent. -/
def checkFloat (value : List Char) (pos : Nat) : Except Problem Unit := do
  let (cs, pos) ← decimalRun value pos false "invalid mantissa"
  let (cs, pos) ← match cs with
    | '.' :: rest => decimalRun rest (pos + 1) true "invalid fraction"
    | _ => pure (cs, pos)
  let (cs, pos) ← match cs with
    | c :: rest =>
      if c == 'e' || c == 'E' then
        match rest with
        | s :: more =>
          if s == '+' || s == '-' then decimalRun more (pos + 2) true "invalid exponent"
          else decimalRun rest (pos + 1) true "invalid exponent"
        | [] => decimalRun rest (pos + 1) true "invalid exponent"
      else pure (cs, pos)
    | [] => pure (cs, pos)
  if !cs.isEmpty then refuse "invalid float" none pos (pos + cs.length)

/-- A scalar starting with a digit or underscore at `pos` of `raw`: a date or time when a dash
or colon follows the leading digits, else a float or a decimal integer. -/
def dateOrNumber (raw value : List Char) (pos : Nat) : Except Problem Decoded := do
  let digits := value.takeWhile Char.isDigit
  let rest := value.drop digits.length
  match rest with
  | [] => do checkLeadingZero value pos; number (.integer 10) raw 0
  | c :: _ =>
    if c == '-' || c == ':' then pure ⟨.datetime, String.ofList raw⟩
    else if rest.contains ' ' then unquoted raw
    else if rest.any (fun d => d == '.' || d == 'e' || d == 'E') then do
      checkFloat value pos
      number .float raw 0
    else if c == '_' then do
      checkLeadingZero value pos
      if let some i := firstBad (fun d _ => d.isDigit || d == '_') value pos then
        refuse "invalid decimal number" none i (i + 1)
      number (.integer 10) raw 0
    else unquoted raw

/-- A scalar whose digits start with zero at `pos`: a base prefix, or a date or number. -/
def zeroPrefix (raw value : List Char) (pos : Nat) (signed : Bool) : Except Problem Decoded :=
  match value with
  | _ :: r :: rest =>
    let base : Option (Nat × Char × String) :=
      if r == 'x' || r == 'X' then some (16, 'x', "invalid hexadecimal number")
      else if r == 'o' || r == 'O' then some (8, 'o', "invalid octal number")
      else if r == 'b' || r == 'B' then some (2, 'b', "invalid binary number")
      else none
    match base with
    | some (radix, lower, invalid) => do
      if signed then refuse "integers with a radix cannot be signed" (some []) 0 1
      if r != lower then refuse "radix must be lowercase" (some [.literal ("0" ++ lower.toString)]) pos (pos + 2)
      checkRadixDigits radix invalid rest (pos + 2)
      number (.integer radix) rest (pos + 2)
    | none => dateOrNumber raw value pos
  | _ => number (.integer 10) raw 0

/-- A scalar after a sign at `pos - 1`. -/
def afterSign (raw value : List Char) (pos : Nat) : Except Problem Decoded :=
  match value with
  | [] => unquoted raw
  | c :: _ =>
    if c == '+' || c == '-' then refuse "redundant numeric sign" (some []) pos (pos + 1)
    else if c == '_' then dateOrNumber raw value pos
    else if c == '0' then zeroPrefix raw value pos true
    else if c.isDigit then dateOrNumber raw value pos
    else if c == '.' then do checkFloat value pos; number .float raw 0
    else if c == 'i' || c == 'I' then
      if value == "inf".toList then .ok ⟨.float, String.ofList raw⟩
      else refuse "invalid float" (some [.literal "inf"]) pos raw.length
    else if c == 'n' || c == 'N' then
      if value == "nan".toList then .ok ⟨.float, String.ofList raw⟩
      else refuse "invalid float" (some [.literal "nan"]) pos raw.length
    else unquoted raw

/-- A bare scalar. -/
def bare (raw : List Char) : Except Problem Decoded :=
  match raw with
  | [] => unquoted raw
  | c :: rest =>
    if c == '+' || c == '-' then afterSign raw rest 1
    else if c == '_' then dateOrNumber raw raw 0
    else if c == '0' then zeroPrefix raw raw 0 false
    else if c.isDigit then dateOrNumber raw raw 0
    else if c == '.' then do checkFloat raw 0; number .float raw 0
    else if c == 't' || c == 'T' then symbol raw "true" (.boolean true) "invalid boolean"
    else if c == 'f' || c == 'F' then symbol raw "false" (.boolean false) "invalid boolean"
    else if c == 'i' || c == 'I' then symbol raw "inf" .float "invalid float"
    else if c == 'n' || c == 'N' then symbol raw "nan" .float "invalid float"
    else unquoted raw

end Scalar

/-- What a scalar says, given its quoting (none when bare). -/
def decodeScalar (encoding : Option Encoding) (raw : List Char) : Except Problem Decoded :=
  match encoding with
  | some e => do pure ⟨.string, ← Scalar.string e raw⟩
  | none => Scalar.bare raw

example : (decodeScalar none "1_000".toList).toOption = some ⟨.integer 10, "1000"⟩ := by decide

example : (decodeScalar none "0x_1".toList).toBool = false := by decide

example : (decodeScalar (some .basic) "\"a\\x41b\"".toList).toOption = some ⟨.string, "aAb"⟩ := by
  decide

end Monorepo.Toml
