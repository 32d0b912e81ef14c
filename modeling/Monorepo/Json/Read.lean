import Monorepo.Json.Value

/-! Reading strict JSON text. Integers stay whole while they fit 64 bits; a fraction, an exponent,
`-0` or a larger integer becomes a float built from its leading digits and a power of ten, the
digits beyond 64 bits counting only toward the exponent. A repeated key keeps its first position
and takes its last value; nesting stops at 128 levels. -/
namespace Monorepo.Json.Read

/-- Why a text is not a JSON document. -/
inductive Failure where
  | unexpectedEnd
  | unexpected (c : Char)
  | invalidNumber
  | numberOutOfRange
  | invalidEscape
  | controlCharacter
  | loneSurrogate
  | depthLimit
  | trailing

/-- A short description of a failure. -/
def Failure.message : Failure → String
  | .unexpectedEnd => "EOF while parsing a value"
  | .unexpected c => "expected value, found " ++ c.toString
  | .invalidNumber => "invalid number"
  | .numberOutOfRange => "number out of range"
  | .invalidEscape => "invalid escape"
  | .controlCharacter => "control character found while parsing a string"
  | .loneSurrogate => "lone surrogate in hex escape"
  | .depthLimit => "recursion limit exceeded"
  | .trailing => "trailing characters"

def isBlank (c : Char) : Bool := c == ' ' || c == '\t' || c == '\n' || c == '\r'

def skipBlank : List Char → List Char
  | c :: cs => if isBlank c then skipBlank cs else c :: cs
  | [] => []

def digitValue (c : Char) : Nat := c.toNat - 48

def maxNatural : Nat := Nat.pow 2 64 - 1

/-- Whether one more digit would carry a value past `limit`. -/
def wouldOverflow (value digit limit : Nat) : Bool :=
  value ≥ limit / 10 && (value > limit / 10 || digit > limit % 10)

/-- Clamps an exponent to the 32-bit range the reader counts in. -/
def clampExponent (e : Int) : Int :=
  if e > 2147483647 then 2147483647 else if e < -2147483648 then -2147483648 else e

def pow10 (k : Nat) : Float := Float.ofScientific 1 false k

/-- `significand * 10 ^ exponent` in float arithmetic: one multiplication or division by a power
of ten up to `10 ^ 308`, dividing by `10 ^ 308` first while the exponent is below that. -/
def fromParts (positive : Bool) (significand : Nat) (exponent : Int) : Except Failure Float :=
  let rec go : Nat → Float → Int → Except Failure Float
    | 0, f, _ => .ok f
    | fuel + 1, f, e =>
      if e.natAbs ≤ 308 then
        if e ≥ 0 then
          let g := f * pow10 e.toNat
          if g.isInf then .error .numberOutOfRange else .ok g
        else .ok (f / pow10 e.natAbs)
      else if f == 0 then .ok f
      else if e ≥ 0 then .error .numberOutOfRange
      else go fuel (f / pow10 308) (e + 308)
  match go 8 significand.toUInt64.toFloat exponent with
  | .ok f => .ok (if positive then f else -f)
  | .error e => .error e

/-- Skips digits after an exponent too large to count: zero, or out of range. -/
def exponentOverflow (positive zeroSignificand positiveExp : Bool) (cs : List Char) :
    Except Failure (Float × List Char) :=
  if !zeroSignificand && positiveExp then .error .numberOutOfRange
  else .ok (if positive then 0.0 else -0.0, cs.dropWhile Char.isDigit)

/-- Digits of an exponent, accumulated while they fit 32 bits. -/
def exponentDigits (acc : Nat) : List Char → Option Nat × List Char
  | c :: cs =>
    if c.isDigit then
      if wouldOverflow acc (digitValue c) 2147483647 then (none, c :: cs)
      else exponentDigits (acc * 10 + digitValue c) cs
    else (some acc, c :: cs)
  | [] => (some acc, [])

/-- The exponent part, after the `e`. -/
def exponentPart (positive : Bool) (significand : Nat) (start : Int) (cs : List Char) :
    Except Failure (Float × List Char) :=
  let (positiveExp, rest) :=
    match cs with
    | '+' :: r => (true, r)
    | '-' :: r => (false, r)
    | r => (true, r)
  match rest with
  | [] => .error .unexpectedEnd
  | d :: r =>
    if !d.isDigit then .error .invalidNumber
    else
      match exponentDigits (digitValue d) r with
      | (none, r') => exponentOverflow positive (significand == 0) positiveExp r'
      | (some e, r') =>
        let final := clampExponent (if positiveExp then start + e else start - e)
        (fromParts positive significand final).map (·, r')

/-- Digits after the point once the significand is full: they are read and dropped. -/
def afterFull (positive : Bool) (significand : Nat) (exponent : Int) (cs : List Char) :
    Except Failure (Float × List Char) :=
  let rest := cs.dropWhile Char.isDigit
  match rest with
  | c :: r => if c == 'e' || c == 'E' then exponentPart positive significand exponent r
              else (fromParts positive significand exponent).map (·, rest)
  | [] => (fromParts positive significand exponent).map (·, rest)

/-- Fraction digits, after the point. -/
def fraction (positive : Bool) (significand : Nat) (before : Int) (after : Int) :
    List Char → Except Failure (Float × List Char)
  | c :: cs =>
    if c.isDigit then
      if wouldOverflow significand (digitValue c) maxNatural then
        afterFull positive significand (before + after) (c :: cs)
      else fraction positive (significand * 10 + digitValue c) before (after - 1) cs
    else if after == 0 then .error .invalidNumber
    else if c == 'e' || c == 'E' then exponentPart positive significand (before + after) cs
    else (fromParts positive significand (before + after)).map (·, c :: cs)
  | [] =>
    if after == 0 then .error .unexpectedEnd
    else (fromParts positive significand (before + after)).map (·, [])

/-- Integer digits beyond 64 bits: each only raises the exponent. -/
def longInteger (positive : Bool) (significand : Nat) (exponent : Int) :
    List Char → Except Failure (Float × List Char)
  | c :: cs =>
    if c.isDigit then longInteger positive significand (exponent + 1) cs
    else if c == '.' then fraction positive significand exponent 0 cs
    else if c == 'e' || c == 'E' then exponentPart positive significand exponent cs
    else (fromParts positive significand exponent).map (·, c :: cs)
  | [] => (fromParts positive significand exponent).map (·, [])

/-- What follows the integer digits: a fraction, an exponent, or the end of the number. -/
def numberTail (positive : Bool) (significand : Nat) (cs : List Char) :
    Except Failure (Number × List Char) :=
  match cs with
  | '.' :: r => (fraction positive significand 0 0 r).map fun (f, r) => (.float f, r)
  | 'e' :: r | 'E' :: r => (exponentPart positive significand 0 r).map fun (f, r) => (.float f, r)
  | _ =>
    if positive then .ok (.natural significand, cs)
    else if significand = 0 || significand > Nat.pow 2 63 then
      .ok (.float (-(significand.toUInt64.toFloat)), cs)
    else .ok (.negative (-(significand : Int)), cs)

/-- Integer digits, accumulated while they fit 64 bits. -/
def integerDigits (positive : Bool) (significand : Nat) :
    List Char → Except Failure (Number × List Char)
  | c :: cs =>
    if c.isDigit then
      if wouldOverflow significand (digitValue c) maxNatural then
        (longInteger positive significand 0 (c :: cs)).map fun (f, r) => (.float f, r)
      else integerDigits positive (significand * 10 + digitValue c) cs
    else numberTail positive significand (c :: cs)
  | [] => numberTail positive significand []

/-- A number, after its optional minus sign. -/
def number (positive : Bool) : List Char → Except Failure (Number × List Char)
  | '0' :: cs =>
    match cs with
    | c :: _ => if c.isDigit then .error .invalidNumber else numberTail positive 0 cs
    | [] => numberTail positive 0 cs
  | c :: cs => if c.isDigit && c != '0' then integerDigits positive (digitValue c) cs
               else .error .invalidNumber
  | [] => .error .unexpectedEnd

/-- The value of a hex digit. -/
def hexValue (c : Char) : Option Nat :=
  if c.isDigit then some (c.toNat - 48)
  else if 'a' ≤ c && c ≤ 'f' then some (c.toNat - 87)
  else if 'A' ≤ c && c ≤ 'F' then some (c.toNat - 55)
  else none

/-- Four hex digits as a number. -/
def hexQuad (a b c d : Char) : Option Nat :=
  match hexValue a, hexValue b, hexValue c, hexValue d with
  | some w, some x, some y, some z => some (((w * 16 + x) * 16 + y) * 16 + z)
  | _, _, _, _ => none

/-- The character of a code that is no surrogate, or of a surrogate pair. -/
def fromUnits (high low : Nat) : Char :=
  Char.ofNat (0x10000 + (high - 0xD800) * 1024 + (low - 0xDC00))

def isLeading (n : Nat) : Bool := 0xD800 ≤ n && n < 0xDC00
def isTrailing (n : Nat) : Bool := 0xDC00 ≤ n && n < 0xE000

/-- The body of a string after its opening quote, up to and without the closing quote. -/
def stringBody (acc : String) : List Char → Except Failure (String × List Char)
  | [] => .error .unexpectedEnd
  | '"' :: cs => .ok (acc, cs)
  | '\\' :: '"' :: r => stringBody (acc.push '"') r
  | '\\' :: '\\' :: r => stringBody (acc.push '\\') r
  | '\\' :: '/' :: r => stringBody (acc.push '/') r
  | '\\' :: 'b' :: r => stringBody (acc.push (Char.ofNat 8)) r
  | '\\' :: 'f' :: r => stringBody (acc.push (Char.ofNat 12)) r
  | '\\' :: 'n' :: r => stringBody (acc.push '\n') r
  | '\\' :: 'r' :: r => stringBody (acc.push '\r') r
  | '\\' :: 't' :: r => stringBody (acc.push '\t') r
  | '\\' :: 'u' :: a :: b :: c :: d :: '\\' :: 'u' :: e :: f :: g :: h :: r =>
    match hexQuad a b c d with
    | none => .error .invalidEscape
    | some n =>
      if isLeading n then
        match hexQuad e f g h with
        | some m => if isTrailing m then stringBody (acc.push (fromUnits n m)) r
                    else .error .loneSurrogate
        | none => .error .invalidEscape
      else if isTrailing n then .error .loneSurrogate
      else stringBody (acc.push (Char.ofNat n)) ('\\' :: 'u' :: e :: f :: g :: h :: r)
  | '\\' :: 'u' :: a :: b :: c :: d :: r =>
    match hexQuad a b c d with
    | none => .error .invalidEscape
    | some n =>
      if isLeading n || isTrailing n then .error .loneSurrogate
      else stringBody (acc.push (Char.ofNat n)) r
  | '\\' :: _ => .error .invalidEscape
  | c :: cs => if c.toNat < 32 then .error .controlCharacter else stringBody (acc.push c) cs

mutual

/-- One value and the text after it; `depth` is the nesting still allowed and `fuel` bounds the
recursion by the length of the text. -/
def value (fuel depth : Nat) (cs : List Char) : Except Failure (Value × List Char) :=
  match fuel with
  | 0 => .error .unexpectedEnd
  | fuel + 1 =>
    match skipBlank cs with
    | [] => .error .unexpectedEnd
    | 'n' :: 'u' :: 'l' :: 'l' :: r => .ok (.null, r)
    | 't' :: 'r' :: 'u' :: 'e' :: r => .ok (.bool true, r)
    | 'f' :: 'a' :: 'l' :: 's' :: 'e' :: r => .ok (.bool false, r)
    | '"' :: r => (stringBody "" r).map fun (s, r) => (.string s, r)
    | '-' :: r => (number false r).map fun (n, r) => (.number n, r)
    | '[' :: r =>
      if depth = 0 then .error .depthLimit
      else
        match skipBlank r with
        | ']' :: r' => .ok (.array [], r')
        | r' => items fuel (depth - 1) [] r'
    | '{' :: r =>
      if depth = 0 then .error .depthLimit
      else
        match skipBlank r with
        | '}' :: r' => .ok (.object [], r')
        | r' => members fuel (depth - 1) [] r'
    | c :: r =>
      if c.isDigit then (number true (c :: r)).map fun (n, r) => (.number n, r)
      else .error (.unexpected c)

/-- Array items after the opening bracket, collected in reverse. -/
def items (fuel depth : Nat) (acc : List Value) (cs : List Char) :
    Except Failure (Value × List Char) :=
  match fuel with
  | 0 => .error .unexpectedEnd
  | fuel + 1 =>
    match value fuel depth cs with
    | .error e => .error e
    | .ok (v, rest) =>
      match skipBlank rest with
      | ',' :: r => items fuel depth (v :: acc) r
      | ']' :: r => .ok (.array (v :: acc).reverse, r)
      | [] => .error .unexpectedEnd
      | c :: _ => .error (.unexpected c)

/-- Object members after the opening brace. -/
def members (fuel depth : Nat) (acc : Members) (cs : List Char) :
    Except Failure (Value × List Char) :=
  match fuel with
  | 0 => .error .unexpectedEnd
  | fuel + 1 =>
    match skipBlank cs with
    | '"' :: r =>
      match stringBody "" r with
      | .error e => .error e
      | .ok (key, r) =>
        match skipBlank r with
        | ':' :: r =>
          match value fuel depth r with
          | .error e => .error e
          | .ok (v, rest) =>
            let acc := acc.insert key v
            match skipBlank rest with
            | ',' :: r => members fuel depth acc r
            | '}' :: r => .ok (.object acc, r)
            | [] => .error .unexpectedEnd
            | c :: _ => .error (.unexpected c)
        | [] => .error .unexpectedEnd
        | c :: _ => .error (.unexpected c)
    | [] => .error .unexpectedEnd
    | c :: _ => .error (.unexpected c)

end

end Monorepo.Json.Read

namespace Monorepo.Json

/-- Reads a whole JSON document; only blanks may follow the value. -/
def parse (text : String) : Except Read.Failure Value :=
  let cs := text.toList
  match Read.value (cs.length + 1) 127 cs with
  | .error e => .error e
  | .ok (v, rest) => if Read.skipBlank rest == [] then .ok v else .error .trailing

end Monorepo.Json
