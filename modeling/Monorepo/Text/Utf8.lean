/-! UTF-8 bytes and text. `decode?` reads bytes that are valid UTF-8; `decodeLossy` reads any
bytes, putting one U+FFFD for each maximal run that starts a sequence but cannot be completed,
and for each byte that starts none. -/

namespace Monorepo.Utf8

/-- Bytes of a file or a name. -/
abbrev Bytes := List UInt8

def encode (s : String) : Bytes := s.toUTF8.toList

def decode? (bs : Bytes) : Option String := String.fromUTF8? ⟨bs.toArray⟩

def isContinuation (b : UInt8) : Bool := 0x80 ≤ b && b ≤ 0xBF

/-- The length of the sequence a lead byte starts, and the range of the byte after it. -/
def leadInfo (b : UInt8) : Option (Nat × UInt8 × UInt8) :=
  if b < 0x80 then some (1, 0, 0)
  else if 0xC2 ≤ b && b ≤ 0xDF then some (2, 0x80, 0xBF)
  else if b == 0xE0 then some (3, 0xA0, 0xBF)
  else if b == 0xED then some (3, 0x80, 0x9F)
  else if 0xE1 ≤ b && b ≤ 0xEF then some (3, 0x80, 0xBF)
  else if b == 0xF0 then some (4, 0x90, 0xBF)
  else if 0xF1 ≤ b && b ≤ 0xF3 then some (4, 0x80, 0xBF)
  else if b == 0xF4 then some (4, 0x80, 0x8F)
  else none

/-- How many bytes after a lead byte belong to its sequence: the second one within `lo..hi`,
later ones continuation bytes, at most `need` of them. -/
def validTail (lo hi : UInt8) (need : Nat) (rest : Bytes) : Nat :=
  match rest with
  | [] => 0
  | b :: more =>
    if need == 0 then 0
    else if lo ≤ b && b ≤ hi then 1 + ((more.take (need - 1)).takeWhile isContinuation).length
    else 0

/-- The code point of a complete sequence. -/
def codePoint (lead : UInt8) (tail : Bytes) : Nat :=
  let first := match tail.length with
    | 0 => lead.toNat
    | 1 => lead.toNat &&& 0x1F
    | 2 => lead.toNat &&& 0x0F
    | _ => lead.toNat &&& 0x07
  tail.foldl (fun acc b => acc * 64 + (b.toNat &&& 0x3F)) first

/-- Decodes any bytes, replacing what is not UTF-8. -/
def decodeLossy (bs : Bytes) : String :=
  go bs bs.length ""
where
  go (bs : Bytes) (fuel : Nat) (acc : String) : String :=
    match fuel, bs with
    | 0, _ => acc
    | _, [] => acc
    | fuel + 1, b :: rest =>
      match leadInfo b with
      | some (1, _, _) => go rest fuel (acc.push (Char.ofNat b.toNat))
      | some (n, lo, hi) =>
        let k := validTail lo hi (n - 1) rest
        if k == n - 1 then
          go (rest.drop k) fuel (acc.push (Char.ofNat (codePoint b (rest.take k))))
        else go (rest.drop k) fuel (acc.push '\uFFFD')
      | none => go rest fuel (acc.push '\uFFFD')

end Monorepo.Utf8
