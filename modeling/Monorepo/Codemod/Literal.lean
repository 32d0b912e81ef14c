import Monorepo.Script.Parse
import Monorepo.Json.Value
import Monorepo.Decimal.Read

/-! Reading literals back as JSON data. Strings, templates without substitutions, numbers,
`true`, `false`, `null`, negated numbers, parentheses, arrays and objects of plain pairs are
data; identifiers, calls, spreads and anything else are not. Numbers read as a 64-bit integer
when their digits fit one, hexadecimal digits when they fit, and as a float otherwise. -/

namespace Monorepo.Codemod

open Monorepo.Script Monorepo.Json

/-- The value of a hex digit. -/
def hexDigit (c : Char) : Option Nat :=
  if c.isDigit then some (c.toNat - 48)
  else if 'a' ≤ c ∧ c ≤ 'f' then some (c.toNat - 87)
  else if 'A' ≤ c ∧ c ≤ 'F' then some (c.toNat - 55)
  else none

/-- Reads digits of base `radix` after an optional sign, refusing empty or invalid text. -/
def readRadix (radix : Nat) (text : String) : Option Int :=
  let (negative, body) :=
    match text.toList with
    | '-' :: cs => (true, cs)
    | '+' :: cs => (false, cs)
    | cs => (false, cs)
  if body.isEmpty then none
  else
    let value := body.foldl (fun acc c => acc.bind fun a =>
      (hexDigit c).bind fun d => if d < radix then some (a * radix + d) else none) (some 0)
    value.map fun v => if negative then -(v : Int) else v

def fitsWord (i : Int) : Bool := -Int.pow 2 63 ≤ i && i < Int.pow 2 63

/-- A number literal's text as JSON data: a 64-bit integer, hex digits that fit one, or a
finite float. Separating underscores are dropped first. -/
def parseNumber (text : String) : Option Number :=
  let cleaned := String.ofList (text.toList.filter (· != '_'))
  let asInt (i : Int) : Number := if i < 0 then .negative i else .natural i.toNat
  match readRadix 10 cleaned with
  | some i => if fitsWord i then some (asInt i) else fallback cleaned asInt
  | none => fallback cleaned asInt
where
  fallback (cleaned : String) (asInt : Int → Number) : Option Number :=
    let lower := String.ofList (cleaned.toList.map Char.toLower)
    if lower.startsWith "0x" then
      match readRadix 16 (String.ofList (lower.toList.drop 2)) with
      | some i => if fitsWord i then some (asInt i) else none
      | none => none
    else (Decimal.readFloat cleaned).bind Number.ofFloat

/-- The code point of four or fewer hex digits, when it is a character. -/
def charOfHex (hex : List Char) : Option Char :=
  match readRadix 16 (String.ofList hex) with
  | some i =>
    let n := i.toNat
    if i ≥ 0 && (n < 0xD800 || (0xDFFF < n && n < 0x110000)) then some (Char.ofNat n) else none
  | none => none

/-- Decodes the escapes of a string literal's body. -/
def unescape : List Char → String
  | [] => ""
  | '\\' :: rest =>
    match rest with
    | 'n' :: more => "\n" ++ unescape more
    | 'r' :: more => "\r" ++ unescape more
    | 't' :: more => "\t" ++ unescape more
    | '0' :: more => (Char.ofNat 0).toString ++ unescape more
    | 'u' :: more =>
      let hex := more.take 4
      match charOfHex hex with
      | some c => c.toString ++ unescape (more.drop 4)
      | none => "\\u" ++ String.ofList hex ++ unescape (more.drop 4)
    | '\n' :: more => unescape more
    | c :: more => c.toString ++ unescape more
    | [] => "\\"
  | c :: rest => c.toString ++ unescape rest
termination_by cs => cs.length
decreasing_by all_goals simp_all <;> omega

/-- The body of a quoted literal: the text without its first and last byte. -/
def stripQuotes (text : String) : String :=
  if text.utf8ByteSize ≥ 2 then String.Pos.Raw.extract text ⟨1⟩ ⟨text.utf8ByteSize - 1⟩ else text

/-- The name of a property key; none for computed keys. -/
def propertyKey (src : Source) (key : Node) : Option String :=
  match key.kind with
  | .propertyIdentifier | .number => some (key.text src)
  | .string => some (unescape (stripQuotes (key.text src)).toList)
  | _ => none

mutual

/-- A literal expression as JSON data, or none when it is not pure data. -/
def literalValue (src : Source) : Node → Option Value
  | ⟨k, f, s, e, cs⟩ =>
    let node : Node := ⟨k, f, s, e, cs⟩
    let text := node.text src
    match k with
    | .string => some (.string (unescape (stripQuotes text).toList))
    | .templateString =>
      if node.namedChildren.any (·.kind == .templateSubstitution) then none
      else some (.string (unescape (stripQuotes text).toList))
    | .number => (parseNumber text).map .number
    | .trueLiteral => some (.bool true)
    | .falseLiteral => some (.bool false)
    | .nullLiteral => some .null
    | .unaryExpression =>
      match node.child? .operator, node.child? .argument with
      | some op, some arg =>
        if op.text src == "-" && arg.kind == .number then
          (parseNumber ("-" ++ arg.text src)).map .number
        else none
      | _, _ => none
    | .parenthesizedExpression => firstNamedLiteral src cs
    | .array => (literalItems src cs).map .array
    | .object => (literalMembers src cs []).map .object
    | _ => none

/-- The first named child taken as data, even when it is a comment. -/
def firstNamedLiteral (src : Source) : List Node → Option Value
  | [] => none
  | n :: rest => if n.isNamed then literalValue src n else firstNamedLiteral src rest

/-- The elements of an array, skipping tokens and comments. -/
def literalItems (src : Source) : List Node → Option (List Value)
  | [] => some []
  | n :: rest =>
    if !n.isNamed || n.isComment then literalItems src rest
    else
      match literalValue src n, literalItems src rest with
      | some v, some vs => some (v :: vs)
      | _, _ => none

/-- The members of an object, each a pair with a plain key, collected in order; a repeated key
keeps its first place and takes the later value. -/
def literalMembers (src : Source) : List Node → Members → Option Members
  | [], acc => some acc
  | n :: rest, acc =>
    if !n.isNamed || n.isComment then literalMembers src rest acc
    else if n.kind != .pair then none
    else
      match pairKey src n, pairValue src n with
      | some key, some value => literalMembers src rest (acc.insert key value)
      | _, _ => none

def pairKey (src : Source) : Node → Option String
  | n => (n.child? .key).bind (propertyKey src)

def pairValue (src : Source) : Node → Option Value
  | ⟨_, _, _, _, cs⟩ => pairValueAmong src cs

def pairValueAmong (src : Source) : List Node → Option Value
  | [] => none
  | n :: rest => if n.field == some .value then literalValue src n else pairValueAmong src rest

end

end Monorepo.Codemod
