import Monorepo.Toml.Scalar
import Monorepo.Toml.Datetime

/-! TOML documents: tables of keys and values, read with the place of every value kept so that
an error can point at the text that caused it. Reading goes in two passes. The first reads the
shape of the document into events and stops at its first problem; only when the shape is sound
does the second read what the keys and scalars say and build the tables, stopping at its first
problem. So a problem of shape anywhere is reported before any problem of meaning.

Tables follow the rules of the format: a key is defined once; a table header may name a table
that only dotted keys or deeper headers have brought into being, but no table defined by an
earlier header or by dotted keys, and no other value; an inline table is complete as written,
so neither dotted keys nor headers may add to it; an array of tables grows by one table at each
of its headers. A float literal too large for binary64 is kept as such, so that only a reader
who asks for its value refuses it; so is an integer literal with no digits. A byte order mark
before the document is skipped. -/

namespace Monorepo.Toml

/-- A TOML value. Arrays and tables keep the character range of each item. -/
inductive Value where
  | string (s : String)
  | integer (i : Int)
  /-- An integer literal with a base prefix and no digits, which no integer width holds. -/
  | unreadableInteger
  | float (f : Float)
  /-- A float literal whose value is too large for binary64. -/
  | floatOverflow
  | boolean (b : Bool)
  | datetime (text : String)
  | array (items : List (Nat × Nat × Value))
  | table (entries : List (String × Nat × Nat × Value))
  deriving Inhabited

/-- A reading error: a message and the character range it points at. -/
structure Failure where
  message : String
  start : Nat
  stop : Nat
  deriving Repr

def Failure.ofProblem (p : Problem) : Failure := ⟨p.text, p.span.start, p.span.stop⟩

/-- The entries of a table. -/
abbrev Entries := List (String × Nat × Nat × Value)

/-- How a table came to be: brought into being by a dotted key or deeper header only
(implicit), by dotted keys (dotted), or written inline. -/
structure Origin where
  implicit : Bool
  dotted : Bool
  inline : Bool
  deriving DecidableEq, Repr

def Origin.defined : Origin := ⟨false, false, false⟩

/-- A value being built. Each table member keeps its key's range and its value's range; an
array knows whether headers made it. -/
inductive Node where
  | scalar (v : Value)
  | array (ofTables : Bool) (items : List (Span × Node))
  | table (origin : Origin) (members : List (String × Span × Span × Node))
  deriving Inhabited

/-- A member of a table being built: key, key range, value range and value. -/
abbrev Member := String × Span × Span × Node

/-- How a value is named when something is refused for being one. -/
def Node.typeName : Node → String
  | .scalar (.string _) => "string"
  | .scalar (.integer _) | .scalar .unreadableInteger => "integer"
  | .scalar (.float _) | .scalar .floatOverflow => "float"
  | .scalar (.boolean _) => "boolean"
  | .scalar (.datetime _) => "datetime"
  | .scalar (.array _) | .array _ _ => "array"
  | .scalar (.table _) => "table"
  | .table o _ => if o.inline then "inline table" else "table"

mutual

/-- The finished value of a node. -/
def Node.toValue : Node → Value
  | .scalar v => v
  | .array _ items => .array (itemValues items)
  | .table _ members => .table (memberValues members)

def itemValues : List (Span × Node) → List (Nat × Nat × Value)
  | [] => []
  | (s, n) :: rest => (s.start, s.stop, n.toValue) :: itemValues rest

def memberValues : List (String × Span × Span × Node) → Entries
  | [] => []
  | (k, _, s, n) :: rest => (k, s.start, s.stop, n.toValue) :: memberValues rest

end

def duplicateKey (span : Span) : Problem := ⟨"duplicate key", none, span⟩

/-- Refuses adding to a value that cannot take more keys. -/
def cannotExtend (typeName : String) (span : Span) : Problem :=
  ⟨"cannot extend value of type " ++ typeName ++ " with a dotted key", none, span⟩

def replaceNode (members : List Member) (k : String) (n : Node) : List Member :=
  members.map fun m => if m.1 == k then (k, m.2.1, m.2.2.1, n) else m

/-- Follows a key path down from a table, bringing missing tables into being (implicit, and
dotted when `dotted`), and applies `act` to the origin and members of the table at its end.
An array of tables stands for its last table. -/
def descend {α : Type} (dotted : Bool) (act : Origin → List Member → Except Problem (α × List Member)) :
    List (String × Span) → Origin → List Member → Except Problem (α × List Member)
  | [], origin, members => act origin members
  | (k, span) :: rest, _, members =>
    match members.find? (·.1 == k) with
    | none => do
      let o : Origin := ⟨true, dotted, false⟩
      let (a, inner) ← descend dotted act rest o []
      pure (a, members ++ [(k, span, span, .table o inner)])
    | some (_, _, _, node) =>
      match node with
      | .table o inner =>
        if o.inline then .error (cannotExtend "inline table" span)
        else if dotted && !o.implicit then .error (duplicateKey span)
        else do
          let (a, inner) ← descend dotted act rest o inner
          pure (a, replaceNode members k (.table o inner))
      | .array true items =>
        match items.getLast? with
        | some (s, .table o inner) => do
          let (a, inner) ← descend dotted act rest o inner
          pure (a, replaceNode members k (.array true (items.dropLast ++ [(s, .table o inner)])))
        | some (_, other) => .error (cannotExtend other.typeName span)
        | none => .error (cannotExtend "array" span)
      | other => .error (cannotExtend other.typeName span)

/-- Puts a value under a key reached by a dotted path into a table. A key given plainly may not
be added to a table made by dotted keys, nor a dotted one to a table made otherwise. -/
def place (path : List (String × Span)) (key : String × Span) (value : Span × Node)
    (origin : Origin) (members : List Member) : Except Problem (List Member) := do
  let (_, members) ← descend true (fun parent ms =>
      if parent.dotted == path.isEmpty || ms.any (·.1 == key.1) then .error (duplicateKey key.2)
      else .ok ((), ms ++ [(key.1, key.2, value.1, value.2)])) path origin members
  pure members

/-- A table header: its key path, its range from the first bracket to the last, and whether it
adds to an array of tables. -/
structure Header where
  path : List (String × Span)
  span : Span
  isArray : Bool

/-- The state of a document being built: the top-level table, the table the last header
opened (or the top-level one before any header), and that header. -/
structure Doc where
  root : List Member
  current : List Member
  header : Option Header

/-- Stores the table the last header opened into the top-level table. -/
def finishTable (doc : Doc) : Except Problem (List Member) :=
  match doc.header with
  | none => .ok doc.current
  | some h =>
    match h.path.getLast? with
    | none => .ok doc.root
    | some (k, kspan) => do
      let table := Node.table .defined doc.current
      let (_, root) ← descend false (fun _ ms =>
          if h.isArray then
            match ms.find? (·.1 == k) with
            | none => .ok ((), ms ++ [(k, kspan, h.span, .array true [(h.span, table)])])
            | some (_, _, _, .array true items) =>
              .ok ((), replaceNode ms k (.array true (items ++ [(h.span, table)])))
            | some _ => .error (duplicateKey kspan)
          else if ms.any (·.1 == k) then .ok ((), replaceNode ms k table)
          else .ok ((), ms ++ [(k, kspan, h.span, table)])) h.path.dropLast .defined doc.root
      pure root

/-- Opens the table a header names, giving its members so far and the top-level table. A table
header may take over a table that only deeper headers brought into being. -/
def startTable (root : List Member) (h : Header) : Except Problem (List Member × List Member) :=
  if h.isArray then .ok ([], root)
  else
    match h.path.getLast? with
    | none => .ok ([], root)
    | some (k, kspan) =>
      descend false (fun _ ms =>
        match ms.find? (·.1 == k) with
        | none => .ok ([], ms)
        | some (_, _, _, .table o inner) =>
          if o.implicit && !o.dotted then .ok (inner, ms.filter (·.1 != k))
          else .error (duplicateKey kspan)
        | some _ => .error (duplicateKey kspan)) h.path.dropLast .defined root

def digitsValue (ds : List Char) : Nat := ds.foldl (fun n c => n * 10 + (c.toNat - 48)) 0

/-- The value of a float literal without digit separators: an optional sign, then `inf`, `nan`,
or digits with an optional fraction and exponent. -/
def floatValue (text : List Char) : Value :=
  let (negative, body) :=
    match text with
    | '-' :: rest => (true, rest)
    | '+' :: rest => (false, rest)
    | cs => (false, cs)
  if body == "inf".toList then .float (if negative then -(1.0 / 0.0) else 1.0 / 0.0)
  else if body == "nan".toList then .float (0.0 / 0.0)
  else
    let whole := body.takeWhile Char.isDigit
    let rest := body.drop whole.length
    let (fraction, rest) :=
      match rest with
      | '.' :: more => (more.takeWhile Char.isDigit, more.dropWhile Char.isDigit)
      | _ => ([], rest)
    let exponent : Int :=
      match rest with
      | c :: more =>
        if c == 'e' || c == 'E' then
          match more with
          | '-' :: ds => -(digitsValue ds : Int)
          | '+' :: ds => digitsValue ds
          | ds => digitsValue ds
        else 0
      | [] => 0
    let mantissa := digitsValue (whole ++ fraction)
    let e10 := exponent - fraction.length
    let f := if e10 < 0 then Float.ofScientific mantissa true e10.natAbs
      else Float.ofScientific mantissa false e10.natAbs
    if f.isInf then .floatOverflow else .float (if negative then -f else f)

/-- The value of an integer literal's digits in a base, with an optional sign. -/
def integerValue (radix : Nat) (text : List Char) : Value :=
  let (negative, digits) :=
    match text with
    | '-' :: rest => (true, rest)
    | '+' :: rest => (false, rest)
    | cs => (false, cs)
  if digits.isEmpty then .unreadableInteger
  else
    let n := digits.foldl (fun a c => a * radix + Scalar.hexValue c) 0
    .integer (if negative then -(n : Int) else n)

namespace Build

/-- Readers of events, which stop at the first problem. -/
abbrev Building := StateT (List Event) (Except Problem)

/-- Takes the next event. -/
def nextEvent : Building (Option Event) := do
  match ← get with
  | [] => pure none
  | e :: rest => set rest; pure (some e)

def upcoming : Building (Option EventKind × Option EventKind) := do
  let es ← get
  return (es.head?.map (·.kind), (es.drop 1).head?.map (·.kind))

/-- Stops with a problem found at a place relative to the range `span`. -/
def lift {α : Type} (span : Span) (r : Except Problem α) : Building α :=
  match r with
  | .ok a => pure a
  | .error p => throw (p.shift span.start)

def keyPart (t : Text) (e : Event) : Building (String × Span) := do
  let k ← lift e.span (Scalar.key e.encoding (t.extract e.span.start e.span.stop).toList)
  pure (k, e.span)

/-- Passes over blanks. -/
def skipBlanks : Nat → Building Unit
  | 0 => pure ()
  | fuel + 1 => do
    if (← upcoming).1 == some .whitespace then
      let _ ← nextEvent
      skipBlanks fuel

/-- The parts of a dotted key, from its first part on. -/
def keyParts (t : Text) (first : Event) : Nat → Building (List (String × Span))
  | 0 => do pure [← keyPart t first]
  | fuel + 1 => do
    let k ← keyPart t first
    let (a, b) ← upcoming
    if a == some .keySep || (a == some .whitespace && b == some .keySep) then
      skipBlanks 1
      let _ ← nextEvent
      skipBlanks 1
      match ← nextEvent with
      | some e =>
        if e.kind == .simpleKey then do pure (k :: (← keyParts t e fuel)) else pure [k]
      | none => pure [k]
    else pure [k]

/-- A key path split into the tables it passes through and its last part. -/
def splitKey (parts : List (String × Span)) : List (String × Span) × (String × Span) :=
  (parts.dropLast, parts.getLast?.getD ("", ⟨0, 0⟩))

/-- The value of a scalar event. -/
def scalarNode (t : Text) (e : Event) : Building (Span × Node) := do
  let d ← lift e.span (decodeScalar e.encoding (t.extract e.span.start e.span.stop).toList)
  match d.kind with
  | .string => pure (e.span, .scalar (.string d.text))
  | .boolean b => pure (e.span, .scalar (.boolean b))
  | .datetime =>
    match Datetime.problem d.text with
    | some p => throw ⟨p.message, none, e.span⟩
    | none => pure (e.span, .scalar (.datetime d.text))
  | .float => pure (e.span, .scalar (floatValue d.text.toList))
  | .integer radix => pure (e.span, .scalar (integerValue radix d.text.toList))

mutual

/-- A value starting at the next event that can start one. -/
def valueNode (t : Text) : Nat → Building (Span × Node)
  | 0 => pure (⟨0, 0⟩, .scalar (.integer 0))
  | fuel + 1 => do
    match ← nextEvent with
    | none => pure (⟨0, 0⟩, .scalar (.integer 0))
    | some e =>
      match e.kind with
      | .scalar => scalarNode t e
      | .arrayOpen => arrayItems t e [] fuel
      | .inlineTableOpen => inlineEntries t e [] none fuel
      | _ => valueNode t fuel

/-- The items of an array after its opening event, up to its closing one. -/
def arrayItems (t : Text) (openE : Event) (acc : List (Span × Node)) :
    Nat → Building (Span × Node)
  | 0 => pure (openE.span, .array false acc)
  | fuel + 1 => do
    match ← nextEvent with
    | none => pure (openE.span, .array false acc)
    | some e =>
      match e.kind with
      | .arrayClose => pure (openE.span.append e.span, .array false acc)
      | .scalar => do
        let item ← scalarNode t e
        arrayItems t openE (acc ++ [item]) fuel
      | .arrayOpen => do
        let item ← arrayItems t e [] fuel
        arrayItems t openE (acc ++ [item]) fuel
      | .inlineTableOpen => do
        let item ← inlineEntries t e [] none fuel
        arrayItems t openE (acc ++ [item]) fuel
      | _ => arrayItems t openE acc fuel

/-- The entries of an inline table after its opening event, up to its closing one; `key` is
the key read whose value comes next. -/
def inlineEntries (t : Text) (openE : Event) (members : List Member)
    (key : Option (List (String × Span))) : Nat → Building (Span × Node)
  | 0 => pure (openE.span, .table ⟨false, false, true⟩ members)
  | fuel + 1 => do
    match ← nextEvent with
    | none => pure (openE.span, .table ⟨false, false, true⟩ members)
    | some e =>
      match e.kind with
      | .inlineTableClose => pure (openE.span.append e.span, .table ⟨false, false, true⟩ members)
      | .simpleKey => do
        let parts ← keyParts t e fuel
        inlineEntries t openE members (some parts) fuel
      | .scalar | .arrayOpen | .inlineTableOpen => do
        let v ←
          match e.kind with
          | .scalar => scalarNode t e
          | .arrayOpen => arrayItems t e [] fuel
          | _ => inlineEntries t e [] none fuel
        match key with
        | some parts =>
          let (path, last) := splitKey parts
          let members ← lift ⟨0, 0⟩ (place path last v ⟨false, false, true⟩ members)
          inlineEntries t openE members none fuel
        | none => inlineEntries t openE members none fuel
      | _ => inlineEntries t openE members key fuel

end

/-- A table header after its opening event, up to its closing one. -/
def header (t : Text) (openE : Event) : Nat → Building Header
  | 0 => pure ⟨[], openE.span, openE.kind == .arrayTableOpen⟩
  | fuel + 1 => do
    let isArray := openE.kind == .arrayTableOpen
    let rec go (path : List (String × Span)) : Nat → Building Header
      | 0 => pure ⟨path, openE.span, isArray⟩
      | n + 1 => do
        match ← nextEvent with
        | none => pure ⟨path, openE.span, isArray⟩
        | some e =>
          match e.kind with
          | .stdTableClose | .arrayTableClose => pure ⟨path, openE.span.append e.span, isArray⟩
          | .simpleKey => do go (← keyParts t e fuel) n
          | .whitespace => go path n
          | _ => pure ⟨path, openE.span, isArray⟩
    go [] fuel

/-- The items of a document, event after event. -/
def items (t : Text) (doc : Doc) : Nat → Building Doc
  | 0 => pure doc
  | fuel + 1 => do
    match ← nextEvent with
    | none => pure doc
    | some e =>
      match e.kind with
      | .stdTableOpen | .arrayTableOpen => do
        let root ← lift ⟨0, 0⟩ (finishTable doc)
        let h ← header t e fuel
        let (current, root) ← lift ⟨0, 0⟩ (startTable root h)
        items t ⟨root, current, some h⟩ fuel
      | .simpleKey => do
        let parts ← keyParts t e fuel
        skipBlanks 1
        match ← nextEvent with
        | some sep =>
          if sep.kind == .keyValSep then do
            let v ← valueNode t fuel
            let (path, last) := splitKey parts
            let current ← lift ⟨0, 0⟩ (place path last v .defined doc.current)
            items t { doc with current } fuel
          else items t doc fuel
        | none => pure doc
      | _ => items t doc fuel

end Build

/-- Reads a TOML document into its top-level table. -/
def read (text : String) : Except Failure Entries :=
  let t := text.toList.toArray
  let start := if t[0]? == some '\uFEFF' then 1 else 0
  match events t start with
  | .error p => .error (Failure.ofProblem p)
  | .ok evs =>
    let built : Except Problem (List Member) := do
      let (doc, _) ← (Build.items t ⟨[], [], none⟩ (evs.size + 1)).run evs.toList
      finishTable doc
    match built with
    | .error p => .error (Failure.ofProblem p)
    | .ok root => .ok (memberValues root)

/-- The line (from zero) and column (from zero) of a character place, where a place past the
end counts as one more column on the last line. -/
def position (cs : List Char) (index : Nat) : Nat × Nat :=
  if cs.isEmpty then (0, index)
  else
    let safe := min index (cs.length - 1)
    let before := cs.take safe
    let lineStart := before.length - (before.reverse.takeWhile (· != '\n')).length
    ((cs.take lineStart).count '\n', safe - lineStart + (index - safe))

/-- The number of bytes of characters in their usual eight-bit encoding. -/
def byteLength (cs : List Char) : Nat := cs.foldl (fun n c => n + c.utf8Size) 0

/-- The report of a failure: its place, the line with a marker under the range, and the
message. The marker is as many carets as the range has bytes, at least one, and stops one past
the end of the line. -/
def Failure.report (f : Failure) (text : String) : String :=
  let cs := text.toList
  let (line, column) := position cs f.start
  let content := ((text.splitOn "\n")[line]?).getD ""
  let width := min (byteLength ((cs.drop f.start).take (f.stop - f.start)))
    (byteLength content.toList - column)
  let number := toString (line + 1)
  let gutter := String.ofList (List.replicate number.length ' ')
  s!"TOML parse error at line {line + 1}, column {column + 1}\n" ++
    gutter ++ " |\n" ++ number ++ " | " ++ content ++ "\n" ++
    gutter ++ " | " ++ String.ofList (List.replicate column ' ') ++
    String.ofList (List.replicate (max 1 width) '^') ++ "\n" ++ f.message ++ "\n"

end Monorepo.Toml
