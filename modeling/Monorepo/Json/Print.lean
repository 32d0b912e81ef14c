import Monorepo.Json.Value
import Monorepo.Decimal.Shortest

/-! Writing JSON text, compact or indented by two spaces. Strings escape the quote, the backslash
and control characters only; floats take their shortest round-trip text. -/
namespace Monorepo.Json

def hex4 (n : Nat) : String :=
  let digit (d : Nat) : Char := if d < 10 then Char.ofNat (48 + d) else Char.ofNat (87 + d)
  String.ofList [digit (n / 4096 % 16), digit (n / 256 % 16), digit (n / 16 % 16), digit (n % 16)]

/-- The escaped form of one character inside a JSON string. -/
def escapeChar (c : Char) : String :=
  match c with
  | '"' => "\\\""
  | '\\' => "\\\\"
  | '\n' => "\\n"
  | '\r' => "\\r"
  | '\t' => "\\t"
  | _ =>
    if c.toNat == 8 then "\\b"
    else if c.toNat == 12 then "\\f"
    else if c.toNat < 32 then "\\u" ++ hex4 c.toNat
    else c.toString

def quote (s : String) : String :=
  s.foldl (fun acc c => acc ++ escapeChar c) "\"" ++ "\""

/-- The text of a number. -/
def Number.render : Number → String
  | .natural n => toString n
  | .negative i => "-" ++ toString i.natAbs
  | .float f => Decimal.render f

mutual

/-- Compact text: no space anywhere outside strings. -/
def Value.render : Value → String
  | .null => "null"
  | .bool b => if b then "true" else "false"
  | .number n => n.render
  | .string s => quote s
  | .array xs => "[" ++ Value.renderItems xs ++ "]"
  | .object ms => "\x7b" ++ Value.renderMembers ms ++ "\x7d"

/-- Comma-separated compact items. -/
def Value.renderItems : List Value → String
  | [] => ""
  | [x] => Value.render x
  | x :: xs => Value.render x ++ "," ++ Value.renderItems xs

/-- Comma-separated compact members. -/
def Value.renderMembers : List (String × Value) → String
  | [] => ""
  | [(k, v)] => quote k ++ ":" ++ Value.render v
  | (k, v) :: ms => quote k ++ ":" ++ Value.render v ++ "," ++ Value.renderMembers ms

end

def indent (depth : Nat) : String :=
  String.ofList (List.replicate (2 * depth) ' ')

mutual

/-- Indented text at nesting `depth`: each item and member on its own line, empty arrays and
objects as `[]` and an empty pair of braces. -/
def Value.pretty (depth : Nat) : Value → String
  | .array [] => "[]"
  | .object [] => "\x7b\x7d"
  | .array xs => "[\n" ++ Value.prettyItems (depth + 1) xs ++ "\n" ++ indent depth ++ "]"
  | .object ms => "\x7b\n" ++ Value.prettyMembers (depth + 1) ms ++ "\n" ++ indent depth ++ "\x7d"
  | v => v.render

/-- Items one per line at `depth`. -/
def Value.prettyItems (depth : Nat) : List Value → String
  | [] => ""
  | [x] => indent depth ++ Value.pretty depth x
  | x :: xs => indent depth ++ Value.pretty depth x ++ ",\n" ++ Value.prettyItems depth xs

/-- Members one per line at `depth`. -/
def Value.prettyMembers (depth : Nat) : List (String × Value) → String
  | [] => ""
  | [(k, v)] => indent depth ++ quote k ++ ": " ++ Value.pretty depth v
  | (k, v) :: ms =>
    indent depth ++ quote k ++ ": " ++ Value.pretty depth v ++ ",\n" ++ Value.prettyMembers depth ms

end

def Value.renderPretty (v : Value) : String := v.pretty 0

end Monorepo.Json
