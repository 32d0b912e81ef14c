/-! Shortest decimal text of a binary64 value. A positive float stands for the interval of reals
that round to it; the digits written are those of the coarsest decimal grid with a point in that
interval, taking the grid point nearest the value (an exact tie takes the even one). -/
namespace Monorepo.Decimal

/-- A finite positive binary64 value `mantissa * 2 ^ exponent`. `lowerCloser` holds when the
mantissa is a power of two above the subnormal range, so the float below is half as far away as
the float above. -/
structure Binary where
  mantissa : Nat
  exponent : Int
  lowerCloser : Bool

/-- Splits the bit pattern of a finite float, ignoring its sign. -/
def Binary.ofBits (bits : UInt64) : Binary :=
  let fraction := (bits &&& 0xFFFFFFFFFFFFF).toNat
  let biased := ((bits >>> 52) &&& 0x7FF).toNat
  if biased == 0 then ⟨fraction, -1074, false⟩
  else ⟨fraction + Nat.pow 2 52, (biased : Int) - 1075, fraction == 0 && biased > 1⟩

/-- The rounding interval of a value, as numerators over one denominator: the value, the lower
end and the upper end. The ends belong to the interval when the mantissa is even. -/
structure Interval where
  value : Nat
  lower : Nat
  upper : Nat
  denominator : Nat
  closed : Bool

/-- Four times the mantissa is the value on a grid of a quarter unit, so both ends are whole. -/
def Binary.interval (b : Binary) : Interval :=
  let v := 4 * b.mantissa
  let lo := if b.lowerCloser then v - 1 else v - 2
  let hi := v + 2
  let shift := b.exponent - 2
  if shift ≥ 0 then
    let scale := Nat.pow 2 shift.toNat
    ⟨v * scale, lo * scale, hi * scale, 1, b.mantissa % 2 == 0⟩
  else
    ⟨v, lo, hi, Nat.pow 2 (-shift).toNat, b.mantissa % 2 == 0⟩

/-- Number of decimal digits of a natural number; zero has none. -/
def digitCount (n : Nat) : Nat :=
  if n = 0 then 0 else (Nat.toDigits 10 n).length

/-- Whether `k * 10 ^ p` lies in the interval, given the interval scaled for grid `p`. -/
def Interval.admits (i : Interval) (scaleNum scaleDen k : Nat) : Bool :=
  let lo := i.lower * scaleNum
  let hi := i.upper * scaleNum
  let x := k * scaleDen
  if i.closed then decide (lo ≤ x ∧ x ≤ hi) else decide (lo < x ∧ x < hi)

/-- The grid point chosen on grid `10 ^ p`, if the grid meets the interval. -/
def Interval.pointOn (i : Interval) (p : Int) : Option Nat :=
  let (num, den) :=
    if p ≥ 0 then (1, Nat.pow 10 p.toNat * i.denominator) else (Nat.pow 10 (-p).toNat, i.denominator)
  let scaled := i.value * num
  let below := scaled / den
  let exact := below * den == scaled
  let above := if exact then below else below + 1
  let okBelow := decide (below > 0) && i.admits num den below
  let okAbove := i.admits num den above
  if okBelow && okAbove then
    let downGap := scaled - below * den
    let upGap := above * den - scaled
    if downGap < upGap then some below
    else if upGap < downGap then some above
    else if below % 2 == 0 then some below else some above
  else if okBelow then some below
  else if okAbove then some above
  else none

/-- Walks the grids from coarse to fine; `fuel` bounds the number of grids tried. -/
def Interval.search (i : Interval) : Nat → Int → Nat × Int
  | 0, p => (0, p)
  | fuel + 1, p =>
    match i.pointOn p with
    | some k => (k, p)
    | none => i.search fuel (p - 1)

/-- Digits and decimal exponent of a finite positive value: `digits * 10 ^ exponent` reads back
as the value, and no coarser grid has such a point. -/
def shortest (b : Binary) : Nat × Int :=
  let i := b.interval
  let start : Int := digitCount (i.upper / i.denominator)
  i.search 1200 start

/-- Decimal exponent `e` written after the mark, always with its sign. -/
def exponentText (e : Int) : String :=
  if e < 0 then "-" ++ toString e.natAbs else "+" ++ toString e.natAbs

/-- Lays out digits `d` times `10 ^ p`: positional while the value has at most sixteen integer
digits and no more than four leading zeros after the point, scientific otherwise. -/
def layout (d : Nat) (p : Int) : String :=
  let ds := toString d
  let len : Int := ds.length
  let kk := len + p
  if 0 ≤ p ∧ kk ≤ 16 then
    ds ++ String.ofList (List.replicate p.toNat '0') ++ ".0"
  else if 0 < kk ∧ kk ≤ 16 then
    let cs := ds.toList
    String.ofList (cs.take kk.toNat) ++ "." ++ String.ofList (cs.drop kk.toNat)
  else if -5 < kk ∧ kk ≤ 0 then
    "0." ++ String.ofList (List.replicate (-kk).toNat '0') ++ ds
  else if len = 1 then
    ds ++ "e" ++ exponentText (kk - 1)
  else
    let cs := ds.toList
    String.ofList (cs.take 1) ++ "." ++ String.ofList (cs.drop 1) ++ "e" ++ exponentText (kk - 1)

/-- Shortest round-trip text of a finite float; zero keeps its sign. -/
def render (f : Float) : String :=
  let bits := f.toBits
  let negative := bits >>> 63 == 1
  let sign := if negative then "-" else ""
  if bits &&& 0x7FFFFFFFFFFFFFFF == 0 then sign ++ "0.0"
  else
    let (d, p) := shortest (Binary.ofBits bits)
    sign ++ layout d p

/-- Positional text of a float with the fewest digits that read back, never with an exponent,
and with `.0` when it has no fraction; infinities are `inf` and `-inf`, NaN is `NaN`. -/
def positional (f : Float) : String :=
  let bits := f.toBits
  let negative := bits >>> 63 == 1
  let sign := if negative then "-" else ""
  if f.isNaN then "NaN"
  else if f.isInf then sign ++ "inf"
  else if bits &&& 0x7FFFFFFFFFFFFFFF == 0 then sign ++ "0.0"
  else
    let (d, p) := shortest (Binary.ofBits bits)
    let ds := toString d
    let kk : Int := ds.length + p
    let body :=
      if 0 ≤ p then ds ++ String.ofList (List.replicate p.toNat '0') ++ ".0"
      else if 0 < kk then
        String.ofList (ds.toList.take kk.toNat) ++ "." ++ String.ofList (ds.toList.drop kk.toNat)
      else "0." ++ String.ofList (List.replicate (-kk).toNat '0') ++ ds
    sign ++ body

end Monorepo.Decimal
