import Monorepo.Json.Print
import Monorepo.Text.Quoted

/-! Refusing JSON data of the wrong shape. A refusal names what was found (`null`, a boolean, an
integer or float with its text, a string in quotes, `sequence`, `map`) and what was expected;
an unknown name of a fixed set lists the names allowed. -/

namespace Monorepo.Json

/-- How a refused value is named. -/
def Value.unexpected : Value → String
  | .null => "null"
  | .bool b => s!"boolean `{b}`"
  | .number (.float f) => "floating point `" ++ Decimal.render f ++ "`"
  | .number n => "integer `" ++ n.render ++ "`"
  | .string s => "string " ++ Text.quoted s
  | .array _ => "sequence"
  | .object _ => "map"

def invalidType (v : Value) (expected : String) : String :=
  s!"invalid type: {v.unexpected}, expected {expected}"

/-- Names in backquotes, joined as a list is read aloud: `a`, `a` or `b`, `a`, `b` or `c`. -/
def alternatives (names : List String) : String :=
  let quotedNames := names.map fun n => "`" ++ n ++ "`"
  match quotedNames.reverse with
  | [] => "nothing"
  | [a] => a
  | last :: rest => ", ".intercalate rest.reverse ++ " or " ++ last

/-- The message for a name outside a fixed set. -/
def unknownVariant (name : String) (allowed : List String) : String :=
  match allowed with
  | [_, _] | [_] => s!"unknown variant `{name}`, expected " ++ alternatives allowed
  | _ => s!"unknown variant `{name}`, expected one of " ++
    ", ".intercalate (allowed.map fun n => "`" ++ n ++ "`")

/-- A string, or the refusal naming what stood there. -/
def Value.expectString (v : Value) : Except String String :=
  match v with
  | .string s => .ok s
  | other => .error (invalidType other "a string")

/-- An object, or the refusal. -/
def Value.expectMap (v : Value) : Except String Members :=
  match v with
  | .object ms => .ok ms
  | other => .error (invalidType other "a map")

end Monorepo.Json
