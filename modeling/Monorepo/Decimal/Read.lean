/-! Reading decimal text as a binary64 value: an optional sign, digits with an optional point,
and an optional exponent, rounded to the nearest float. Values beyond the largest float read
as infinity and values below the smallest as zero; `inf`, `infinity` and `nan` are read in any
case. -/
namespace Monorepo.Decimal

/-- The digits at the front of a list, as a number with their count, and the rest. -/
def digitRun : List Char → Nat × Nat × List Char
  | c :: cs =>
    if c.isDigit then
      let (v, n, rest) := digitRun cs
      ((c.toNat - 48) * Nat.pow 10 n + v, n + 1, rest)
    else (0, 0, c :: cs)
  | [] => (0, 0, [])

/-- Splits an optional sign off a list of characters; the flag tells whether it was a minus. -/
def splitSign : List Char → Bool × List Char
  | '-' :: cs => (true, cs)
  | '+' :: cs => (false, cs)
  | cs => (false, cs)

/-- The nearest float to `m * 10 ^ e`, with infinity beyond the range and zero below it. -/
def nearest (m : Nat) (e : Int) : Float :=
  if m == 0 then 0.0
  else
    let magnitude : Int := e + (Nat.toDigits 10 m).length
    if magnitude > 310 then Float.ofScientific 1 false 400
    else if magnitude < -330 then 0.0
    else if e < 0 then Float.ofScientific m true e.natAbs
    else Float.ofScientific m false e.natAbs

/-- Reads a decimal float; none when the text is not one. -/
def readFloat (text : String) : Option Float :=
  let (negative, body) := splitSign text.toList
  let sign (f : Float) : Float := if negative then -f else f
  let word := String.ofList (body.map Char.toLower)
  if word == "inf" || word == "infinity" then some (sign (Float.ofScientific 1 false 400))
  else if word == "nan" then some (0.0 / 0.0)
  else
    let (whole, wholeCount, rest) := digitRun body
    let (frac, fracCount, rest) :=
      match rest with
      | '.' :: more => digitRun more
      | _ => (0, 0, rest)
    if wholeCount + fracCount == 0 then none
    else
      let mantissa := whole * Nat.pow 10 fracCount + frac
      let exponent : Option Int :=
        match rest with
        | [] => some 0
        | c :: more =>
          if c == 'e' || c == 'E' then
            let (expNegative, digits) := splitSign more
            let (value, count, tail) := digitRun digits
            if count == 0 || !tail.isEmpty then none
            else some (if expNegative then -(value : Int) else value)
          else none
      exponent.map fun e => sign (nearest mantissa (e - fracCount))

end Monorepo.Decimal
