import Monorepo.Codemod.Style
import Monorepo.Json.Print

/-! Writing JSON data as a script literal in the style of the object it goes into: strings in
the file's quote, keys bare when they are plain identifiers, nested objects one level deeper,
and objects on one line or one property per line as the style says. -/

namespace Monorepo.Codemod

open Monorepo.Json

/-- A string literal in `quote`, escaping the backslash, line breaks, tabs and the quote. -/
def renderString (s : String) (quote : Char) : String :=
  let body := s.foldl (fun acc c =>
    if c == '\\' then acc ++ "\\\\"
    else if c == '\n' then acc ++ "\\n"
    else if c == '\r' then acc ++ "\\r"
    else if c == '\t' then acc ++ "\\t"
    else if c == quote then acc.push '\\' |>.push c
    else acc.push c) ""
  quote.toString ++ body ++ quote.toString

/-- Whether a key can stand bare: an ASCII letter, `_` or `$`, then also digits. -/
def isPlainKey (key : String) : Bool :=
  match key.toList with
  | c :: cs =>
    let start (d : Char) : Bool := ('a' ≤ d && d ≤ 'z') || ('A' ≤ d && d ≤ 'Z') || d == '_' || d == '$'
    start c && cs.all fun d => start d || d.isDigit
  | [] => false

/-- A property key: bare when plain and the style does not quote keys. -/
def renderKey (key : String) (style : ObjectStyle) : String :=
  if !style.quotedKeys && isPlainKey key then key else renderString key style.quote

/-- Lays out rendered `key: value` pairs as an object literal. -/
def renderObject (entries : List (String × String)) (style : ObjectStyle) : String :=
  if entries.isEmpty then "\x7b\x7d"
  else if !style.multiline then
    "\x7b " ++ ", ".intercalate (entries.map fun (k, v) => k ++ ": " ++ v) ++ " \x7d"
  else
    let count := entries.length
    let lines := entries.zipIdx.map fun ((k, v), i) =>
      style.propertyIndent ++ k ++ ": " ++ v ++
        (if i + 1 != count || style.trailingComma then "," else "") ++ style.newline
    "\x7b" ++ style.newline ++ String.join lines ++ style.objectIndent ++ "\x7d"

mutual

/-- JSON data as a literal placed in an object of style `style`. -/
def renderValue (style : ObjectStyle) : Value → String
  | .null => "null"
  | .bool b => if b then "true" else "false"
  | .number n => n.render
  | .string s => renderString s style.quote
  | .array items => "[" ++ ", ".intercalate (renderItems style items) ++ "]"
  | .object members => renderObject (renderEntries style members) style.nested

def renderItems (style : ObjectStyle) : List Value → List String
  | [] => []
  | v :: vs => renderValue style v :: renderItems style vs

/-- Object entries: keys in the outer style, values one level deeper. -/
def renderEntries (style : ObjectStyle) : List (String × Value) → List (String × String)
  | [] => []
  | (k, v) :: rest => (renderKey k style, renderValue style.nested v) :: renderEntries style rest

end

end Monorepo.Codemod
