/-! JSON documents as this tool holds them. An object is the list of its members in insertion
order with each key at most once; a number keeps its kind (natural, negative or floating), and two
numbers of different kinds are never equal. -/
namespace Monorepo.Json

/-- A JSON number: an integer below `2 ^ 64`, a negative integer from `-2 ^ 63`, or a finite
binary64 value. -/
inductive Number where
  | natural (n : Nat)
  | negative (n : Int)
  | float (f : Float)

/-- Numbers compare within their kind; floats by value, so `0.0` equals `-0.0`. -/
def Number.beq : Number → Number → Bool
  | .natural a, .natural b => a == b
  | .negative a, .negative b => a == b
  | .float a, .float b => a == b
  | _, _ => false

/-- The number for an integer, if it lies in the range that keeps integers whole. -/
def Number.ofInt (i : Int) : Option Number :=
  if i ≥ 0 then
    if i.toNat < Nat.pow 2 64 then some (.natural i.toNat) else none
  else if i ≥ -Int.pow 2 63 then some (.negative i) else none

/-- A finite float as a number; infinities and NaN have none. -/
def Number.ofFloat (f : Float) : Option Number :=
  if f.isNaN || f.isInf then none else some (.float f)

/-- A JSON value. -/
inductive Value where
  | null
  | bool (b : Bool)
  | number (n : Number)
  | string (s : String)
  | array (items : List Value)
  | object (members : List (String × Value))

/-- The members of an object, in order. -/
abbrev Members := List (String × Value)

namespace Members

/-- The value stored under `key`. -/
def get? (members : Members) (key : String) : Option Value :=
  match members.find? (·.1 == key) with
  | some (_, v) => some v
  | none => none

def contains (members : Members) (key : String) : Bool :=
  members.any (·.1 == key)

/-- Stores `value` under `key`: an existing key keeps its position, a new one goes last. -/
def insert (members : Members) (key : String) (value : Value) : Members :=
  if members.contains key then members.map fun m => if m.1 == key then (key, value) else m
  else members ++ [(key, value)]

def keys (members : Members) : List String :=
  members.map (·.1)

/-- Removes `key` by moving the last member into its place, as an indexed map does when it does
not keep order on removal. Returns the removed value. -/
def swapRemove (members : Members) (key : String) : Option Value × Members :=
  match members.findIdx? (·.1 == key) with
  | none => (none, members)
  | some i =>
    let removed := (members[i]?).map (·.2)
    let n := members.length
    if i + 1 = n then (removed, members.take i)
    else
      match members.getLast? with
      | some last => (removed, (members.take (n - 1)).set i last)
      | none => (removed, members)

def erase (members : Members) (key : String) : Members :=
  members.filter (·.1 != key)

end Members

mutual

/-- Equality of JSON values: arrays element by element, objects as maps regardless of member
order, numbers within their kind. -/
def Value.beq : Value → Value → Bool
  | .null, .null => true
  | .bool a, .bool b => a == b
  | .number a, .number b => a.beq b
  | .string a, .string b => a == b
  | .array xs, .array ys => Value.beqItems xs ys
  | .object ms, .object ns => ms.length == ns.length && Value.beqMembers ms ns
  | _, _ => false

/-- Pairwise equality of two lists of values. -/
def Value.beqItems : List Value → List Value → Bool
  | [], [] => true
  | x :: xs, y :: ys => Value.beq x y && Value.beqItems xs ys
  | _, _ => false

/-- Every member of the first object is matched by an equal member of the second. -/
def Value.beqMembers : List (String × Value) → List (String × Value) → Bool
  | [], _ => true
  | (k, v) :: rest, others =>
    (match others.find? (·.1 == k) with
      | some (_, w) => Value.beq v w
      | none => false) && Value.beqMembers rest others

end

instance : BEq Value := ⟨Value.beq⟩

mutual

/-- Nesting depth of a value: one for a scalar, one more than its deepest item otherwise. -/
def Value.depth : Value → Nat
  | .array xs => Value.depthItems xs + 1
  | .object ms => Value.depthMembers ms + 1
  | _ => 1

def Value.depthItems : List Value → Nat
  | [] => 0
  | x :: xs => max (Value.depth x) (Value.depthItems xs)

def Value.depthMembers : List (String × Value) → Nat
  | [] => 0
  | (_, v) :: ms => max (Value.depth v) (Value.depthMembers ms)

end

namespace Value

def asString? : Value → Option String
  | .string s => some s
  | _ => none

def asObject? : Value → Option Members
  | .object ms => some ms
  | _ => none

def asArray? : Value → Option (List Value)
  | .array xs => some xs
  | _ => none

def field? (v : Value) (key : String) : Option Value :=
  v.asObject?.bind (·.get? key)

def str (s : String) : Value := .string s

def nat (n : Nat) : Value := .number (.natural n)

/-- An optional string, `null` when absent. -/
def ofOption (o : Option String) : Value :=
  match o with
  | some s => .string s
  | none => .null

end Value

end Monorepo.Json
