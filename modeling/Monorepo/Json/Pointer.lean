import Monorepo.Json.Value

/-! Places inside a JSON document and edits that keep its layout. A pointer is `/`-separated
reference tokens with `~1` for `/` and `~0` for `~`; an array step is a decimal index without
sign or leading zero. `Members.mergeInPlace` brings an object in line with a newer one while
keeping its key order, `Value.renameKey` renames a key where it stands, and `Value.strings` lists
every string with its pointer in document order. -/

namespace Monorepo.Json

/-- Replaces, left to right, each `a` directly followed by `b` with `r`. -/
def replacePair (a b r : Char) : List Char → List Char
  | x :: y :: rest =>
    if x = a ∧ y = b then r :: replacePair a b r rest else x :: replacePair a b r (y :: rest)
  | l => l

/-- A reference token as written in a pointer: `~` as `~0`, then `/` as `~1`. -/
def escapeToken (token : String) : String :=
  String.ofList (token.toList.flatMap fun c =>
    if c = '~' then ['~', '0'] else if c = '/' then ['~', '1'] else [c])

/-- A reference token as written in a pointer, decoded: `~1` to `/`, then `~0` to `~`. -/
def unescapeToken (token : String) : String :=
  String.ofList (replacePair '~' '0' '~' (replacePair '~' '1' '/' token.toList))

/-- The reference tokens of a pointer: none for the empty pointer, none at all when the text
does not start with `/`. -/
def pointerTokens (pointer : String) : Option (List String) :=
  match pointer.toList with
  | [] => some []
  | '/' :: rest => some ((rest.splitOn '/').map fun part => unescapeToken (String.ofList part))
  | _ => none

/-- An array index token: decimal digits only, and no leading zero. -/
def indexToken (token : String) : Option Nat :=
  match token.toList with
  | [] => none
  | '0' :: _ :: _ => none
  | cs => if cs.all Char.isDigit then some (Nat.ofDigitChars 10 cs 0) else none

namespace Value

/-- The value a list of reference tokens leads to. -/
def atTokens : List String → Value → Option Value
  | [], v => some v
  | t :: rest, .object ms => (Members.get? ms t).bind (atTokens rest)
  | t :: rest, .array xs => (indexToken t).bind fun i => xs[i]?.bind (atTokens rest)
  | _ :: _, _ => none

/-- Applies `f` to the value a list of reference tokens leads to; the document stays as it is
when the tokens lead nowhere. -/
def updateTokens (f : Value → Value) : List String → Value → Value
  | [], v => f v
  | t :: rest, .object ms =>
    .object (ms.map fun (k, v) => if k == t then (k, updateTokens f rest v) else (k, v))
  | t :: rest, .array xs =>
    match indexToken t with
    | some i => .array (xs.zipIdx.map fun (v, j) => if j == i then updateTokens f rest v else v)
    | none => .array xs
  | _ :: _, v => v

def pointer? (v : Value) (pointer : String) : Option Value :=
  (pointerTokens pointer).bind (atTokens · v)

end Value

/-- Whether a value is an empty object or array, which reads the same as an absent key. -/
def isEmptyCollection : Value → Bool
  | .object ms => ms.isEmpty
  | .array xs => xs.isEmpty
  | _ => false

/-- Takes each member of `updated` out in turn, the way an indexed map removes them: the last
member moves into the gap. Returns the values found for `keys` and what is left. -/
def takeMatching (keys : List String) (updated : Members) : List (String × Option Value) × Members :=
  keys.foldl (fun (found, rest) k =>
    let (v, rest) := Members.swapRemove rest k
    (found ++ [(k, v)], rest)) ([], updated)

namespace Members

/-- Brings `document` in line with `updated`: keys in both keep their place in `document` and
take the new value, keys only in `updated` follow, and keys missing from `updated` are dropped
unless their value is an empty object or array. -/
def mergeInPlace (document updated : Members) : Members :=
  let kept := document.filter fun (k, v) => Members.contains updated k || isEmptyCollection v
  let (found, rest) := takeMatching (kept.map (·.1)) updated
  let kept := kept.zip found |>.map fun ((k, v), (_, new)) => (k, new.getD v)
  rest.foldl (fun acc (k, v) => Members.insert acc k v) kept

/-- Renames `old` to `new` where it stands; when `new` exists already, the later value wins at
the earlier place. -/
def renameKey (members : Members) (old new : String) : Members :=
  members.foldl (fun acc (k, v) => Members.insert acc (if k == old then new else k) v) []

end Members

namespace Value

/-- Renames a key of the object at a pointer; false when there is no such object or key. -/
def renameKey (document : Value) (pointer old new : String) : Bool × Value :=
  match pointerTokens pointer with
  | none => (false, document)
  | some tokens =>
    match atTokens tokens document with
    | some (.object ms) =>
      if Members.contains ms old then
        (true, updateTokens (fun v => match v with
          | .object ms => .object (Members.renameKey ms old new)
          | other => other) tokens document)
      else (false, document)
    | _ => (false, document)

mutual

/-- Every string inside a value with its pointer, in document order. -/
def strings (pointer : String) : Value → List (String × String)
  | .string s => [(pointer, s)]
  | .array xs => stringsOfItems pointer 0 xs
  | .object ms => stringsOfMembers pointer ms
  | _ => []

/-- The strings of array items, counting indices from `i`. -/
def stringsOfItems (pointer : String) (i : Nat) : List Value → List (String × String)
  | [] => []
  | x :: xs => strings (pointer ++ "/" ++ toString i) x ++ stringsOfItems pointer (i + 1) xs

def stringsOfMembers (pointer : String) : List (String × Value) → List (String × String)
  | [] => []
  | (k, v) :: ms => strings (pointer ++ "/" ++ escapeToken k) v ++ stringsOfMembers pointer ms

end

mutual

/-- Replaces every string for which `rewrite` gives a different one; also counts them. -/
def rewriteStrings (rewrite : String → Option String) : Value → Value × Nat
  | .string s =>
    match rewrite s with
    | some t => if t != s then (.string t, 1) else (.string s, 0)
    | none => (.string s, 0)
  | .array xs => let (ys, n) := rewriteItems rewrite xs; (.array ys, n)
  | .object ms => let (ns, n) := rewriteMembers rewrite ms; (.object ns, n)
  | v => (v, 0)

/-- Rewrites the strings of array items. -/
def rewriteItems (rewrite : String → Option String) : List Value → List Value × Nat
  | [] => ([], 0)
  | x :: xs =>
    let (y, n) := rewriteStrings rewrite x
    let (ys, m) := rewriteItems rewrite xs
    (y :: ys, n + m)

/-- Rewrites the strings of object members. -/
def rewriteMembers (rewrite : String → Option String) :
    List (String × Value) → List (String × Value) × Nat
  | [] => ([], 0)
  | (k, v) :: ms =>
    let (w, n) := rewriteStrings rewrite v
    let (ns, m) := rewriteMembers rewrite ms
    ((k, w) :: ns, n + m)

end

end Value

end Monorepo.Json
