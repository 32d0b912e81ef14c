/-! How alike two words are, by the Jaro measure. A character of one word matches an equal,
unmatched character of the other at most half the longer length less one places away; the
measure averages the share of matched characters in each word and the share of matches that
appear in the same order in both. A word is offered as a correction when its measure with the
typed word exceeds `0.7`. The measure is kept as an exact fraction, so comparing two measures
never rounds. -/

namespace Monorepo.Cli

/-- A fraction of natural numbers with a positive denominator. -/
structure Ratio where
  num : Nat
  den : Nat
  deriving DecidableEq, Repr

namespace Ratio

def lt (a b : Ratio) : Bool := a.num * b.den < b.num * a.den

def le (a b : Ratio) : Bool := a.num * b.den ≤ b.num * a.den

end Ratio

/-- The characters of `a` that match characters of `b`, in order, and which places of `b`
they matched. -/
def matchedCharacters (a b : List Char) : List Char × Array Bool :=
  let window := max a.length b.length / 2 - 1
  let others := b.toArray
  a.zipIdx.foldl (fun (found, taken) (ch, i) =>
    let low := i - window
    let high := min b.length (i + window + 1)
    let free (j : Nat) : Bool := others[j]? == some ch && !(taken[j]?.getD true)
    match (List.range' low (high - low)).find? free with
    | some j => (found ++ [ch], taken.set! j true)
    | none => (found, taken)) ([], Array.replicate b.length false)

/-- The Jaro measure of two words. -/
def jaro (a b : String) : Ratio :=
  let xs := a.toList
  let ys := b.toList
  if xs.isEmpty && ys.isEmpty then ⟨1, 1⟩
  else if xs.isEmpty || ys.isEmpty then ⟨0, 1⟩
  else
    let (found, taken) := matchedCharacters xs ys
    let inOrder := (ys.zipIdx.filter fun (_, j) => taken[j]?.getD false).map (·.1)
    let m := found.length
    if m == 0 then ⟨0, 1⟩
    else
      let t := ((found.zip inOrder).countP fun (x, y) => x != y) / 2
      let la := xs.length
      let lb := ys.length
      ⟨m * lb * m + m * la * m + (m - t) * la * lb, 3 * la * lb * m⟩

def threshold : Ratio := ⟨7, 10⟩

/-- The candidates alike enough to the typed word, least alike first; candidates equally alike
keep their order. -/
def similar (typed : String) (candidates : List String) : List String :=
  let scored := (candidates.map fun c => (jaro typed c, c)).filter fun (r, _) => threshold.lt r
  (scored.mergeSort fun x y => x.1.le y.1).map (·.2)

/-- The candidate most alike to the typed word, the later one among equals. -/
def mostSimilar (typed : String) (candidates : List String) : Option String :=
  (similar typed candidates).getLast?

end Monorepo.Cli
