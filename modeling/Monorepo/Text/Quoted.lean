/-! Text as a quoted literal for messages: in double quotes, with backslash escapes for the quote,
the backslash, line breaks, tabs, NUL and other control characters. -/

namespace Monorepo.Text

/-- Hex digits of a number, lowercase, without leading zeros. -/
def hexDigits (n : Nat) : String := String.ofList (Nat.toDigits 16 n)

/-- The escaped form of one character inside a quoted literal. -/
def escapeQuoted (c : Char) : String :=
  if c == '"' then "\\\""
  else if c == '\\' then "\\\\"
  else if c == '\n' then "\\n"
  else if c == '\r' then "\\r"
  else if c == '\t' then "\\t"
  else if c.toNat == 0 then "\\0"
  else if c.toNat < 0x20 || c.toNat == 0x7F then "\\u\x7b" ++ hexDigits c.toNat ++ "\x7d"
  else c.toString

/-- A text in double quotes with its special characters escaped. -/
def quoted (s : String) : String :=
  "\"" ++ String.join (s.toList.map escapeQuoted) ++ "\""

end Monorepo.Text
