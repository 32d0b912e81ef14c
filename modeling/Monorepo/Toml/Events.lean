import Monorepo.Toml.Problem

/-! The shape of a TOML document, read from its tokens as a flat list of events: table headers,
keys and their separators, values (scalars, arrays and inline tables) and the blanks, comments
and line breaks between them. This reader checks only the order of things; what a key or scalar
says, and whether a key is defined twice, is left to the reader of the events.

Where an item is missing but its place is clear, an empty key or scalar is put there instead of
stopping, so that the reader of the events refuses it with a message about that item: an equals
sign with no key before it, an empty header, an equals sign with nothing after it on its line,
or an inline table closed right after a key or its equals sign. Line breaks, comments and a final
comma are allowed inside inline tables. A bare scalar runs over dots, and over a blank that is
followed by more of it, so that a date and time separated by a space is one scalar. -/

namespace Monorepo.Toml

/-- How a quoted key or scalar is written. -/
inductive Encoding where
  | literal
  | basic
  | multiLiteral
  | multiBasic
  deriving DecidableEq, Repr

/-- The kinds of event. -/
inductive EventKind where
  | stdTableOpen
  | stdTableClose
  | arrayTableOpen
  | arrayTableClose
  | inlineTableOpen
  | inlineTableClose
  | arrayOpen
  | arrayClose
  | simpleKey
  | keySep
  | keyValSep
  | scalar
  | valueSep
  | whitespace
  | comment
  | newline
  | error
  deriving DecidableEq, Repr

/-- An event: its kind, the characters it covers and, for a quoted key or scalar, its quoting. -/
structure Event where
  kind : EventKind
  span : Span
  encoding : Option Encoding
  deriving DecidableEq, Repr

/-- The quoting of a string token, none for any other token. -/
def TokenKind.encoding : TokenKind → Option Encoding
  | .literalString => some .literal
  | .basicString => some .basic
  | .multiLiteralString => some .multiLiteral
  | .multiBasicString => some .multiBasic
  | _ => none

/-- Whether a token can be a key or a scalar: a string or an atom. -/
def TokenKind.isWord (k : TokenKind) : Bool :=
  k.encoding.isSome || k == .atom

/-- Whether a token is a blank, a comment, a line break or the end. -/
def TokenKind.isFiller (k : TokenKind) : Bool :=
  k == .whitespace || k == .comment || k == .newline || k == .eof

def isCommentChar (c : Char) : Bool :=
  c == '\t' || (' ' ≤ c && c ≤ '~') || c.toNat ≥ 0x80

namespace Events

/-- The reading position over the tokens, with the events so far. -/
structure Cursor where
  text : Text
  tokens : Array Token
  pos : Nat
  events : Array Event

/-- Readers of tokens, which stop at the first problem. -/
abbrev Reading := StateT Cursor (Except Problem)

def fail {α : Type} (message : String) (expected : Option (List Expected)) (span : Span) :
    Reading α :=
  throw ⟨message, expected, span⟩

/-- Takes the next token. -/
def next : Reading (Option Token) := do
  let c ← get
  match c.tokens[c.pos]? with
  | some tok => set { c with pos := c.pos + 1 }; return some tok
  | none => return none

def peekAt (k : Nat) : Reading (Option Token) := do
  let c ← get
  return c.tokens[c.pos + k]?

/-- Takes the next token if its kind satisfies `p`. -/
def nextIf (p : TokenKind → Bool) : Reading (Option Token) := do
  match ← peekAt 0 with
  | some tok => if p tok.kind then next else return none
  | none => return none

def back : Reading Unit := modify fun c => { c with pos := c.pos - 1 }

def emit (kind : EventKind) (span : Span) (encoding : Option Encoding) : Reading Unit :=
  modify fun c => { c with events := c.events.push ⟨kind, span, encoding⟩ }

/-- The last of the first `k` tokens that is not filler. -/
def significantBefore (tokens : Array Token) : Nat → Option Token
  | 0 => none
  | k + 1 =>
    match tokens[k]? with
    | some tok => if tok.kind.isFiller then significantBefore tokens k else some tok
    | none => significantBefore tokens k

/-- The last of the first `k` tokens that is not a blank. -/
def solidBefore (tokens : Array Token) : Nat → Option Token
  | 0 => none
  | k + 1 =>
    match tokens[k]? with
    | some tok => if tok.kind == .whitespace then solidBefore tokens k else some tok
    | none => solidBefore tokens k

/-- The characters of the last token taken that is not filler, or the start of the text. -/
def lastSignificant : Reading Span := do
  let c ← get
  return ((significantBefore c.tokens c.pos).map (·.span)).getD ⟨0, 0⟩

/-- A line break; a carriage return must be followed by a line feed. -/
def newline (tok : Token) : Reading Unit := do
  let c ← get
  if tok.span.stop == tok.span.start + 1 && charAt c.text tok.span.start == '\r' then
    fail "carriage return must be followed by newline" (some [.literal "\n"]) tok.span.after
  emit .newline tok.span none

/-- The first place in a range whose character may not stand in a comment. -/
def badCommentChar (t : Text) (stop : Nat) : Nat → Nat → Option Nat
  | _, 0 => none
  | i, fuel + 1 =>
    if i < stop then (if isCommentChar (charAt t i) then badCommentChar t stop (i + 1) fuel else some i)
    else none

/-- A comment, with the line break that ends it. -/
def onComment (tok : Token) : Reading Unit := do
  let c ← get
  let s := tok.span
  if let some i := badCommentChar c.text s.stop (s.start + 1) (s.stop - s.start) then
    fail "invalid comment character" (some [.description "printable characters"]) ⟨i, i⟩
  emit .comment s none
  match ← next with
  | some t =>
    if t.kind == .newline then newline t
    else if t.kind == .eof then pure ()
    else back
  | none => pure ()

def optWhitespace : Reading Unit := do
  if let some tok ← nextIf (· == .whitespace) then emit .whitespace tok.span none

/-- Passes over the rest of a line that cannot be read. -/
def ignoreToNewline : Nat → Reading Unit
  | 0 => pure ()
  | fuel + 1 => do
    match ← next with
    | none => pure ()
    | some tok =>
      match tok.kind with
      | .whitespace => emit .whitespace tok.span none; ignoreToNewline fuel
      | .comment => onComment tok
      | .newline => newline tok
      | .eof => pure ()
      | _ => emit .error tok.span none; ignoreToNewline fuel

/-- After an item of a document: blanks, then a comment, a line break or the end. -/
def lineEnd : Nat → Reading Unit
  | 0 => pure ()
  | fuel + 1 => do
    match ← next with
    | none => pure ()
    | some tok =>
      match tok.kind with
      | .whitespace => emit .whitespace tok.span none; lineEnd fuel
      | .comment => onComment tok
      | .newline => newline tok
      | .eof => pure ()
      | _ => fail "unexpected key or value" (some [.literal "\n", .literal "#"]) tok.span.before

mutual

/-- Further dotted parts of a key; false when a part is missing at the end. -/
def moreKeys : Nat → Reading Bool
  | 0 => pure true
  | fuel + 1 => do
    match ← nextIf (· == .dot) with
    | none => pure true
    | some dot => do
      emit .keySep dot.span none
      afterDot dot fuel

/-- The part of a key after a dot. -/
def afterDot (dot : Token) : Nat → Reading Bool
  | 0 => pure true
  | fuel + 1 => do
    match ← next with
    | none => do emit .simpleKey dot.span.after none; moreKeys fuel
    | some tok =>
      if tok.kind == .whitespace then do
        emit .whitespace tok.span none; afterDot dot fuel
      else if tok.kind == .dot then do
        emit .simpleKey tok.span.before none
        emit .keySep tok.span none
        afterDot dot fuel
      else if tok.kind.isWord then do
        emit .simpleKey tok.span tok.kind.encoding
        optWhitespace
        moreKeys fuel
      else do
        emit .simpleKey tok.span.before none
        back
        pure false

end

/-- The dotted parts after a first key part, with the blanks around them. -/
def dotKeys (fuel : Nat) : Reading Bool := do
  optWhitespace
  moreKeys fuel

/-- A key of a table header; false when it is missing or ends in a dot. -/
def headerKey (invalid : String) : Nat → Reading Bool
  | 0 => pure false
  | fuel + 1 => do
    match ← next with
    | none => do
      let prev ← lastSignificant
      fail invalid (some [.description "key"]) prev.after
    | some tok =>
      if tok.kind == .whitespace then do
        emit .whitespace tok.span none; headerKey invalid fuel
      else if tok.kind == .dot then do
        emit .simpleKey tok.span.before none
        emit .keySep tok.span none
        headerKey invalid fuel
      else if tok.kind.isWord then do
        emit .simpleKey tok.span tok.kind.encoding
        dotKeys fuel
      else do
        emit .simpleKey tok.span.before none
        back
        pure false

/-- Extends a bare scalar ending at `stop` over following atoms and dots, and over a blank
followed by an atom. -/
def joinAtoms (stop : Nat) : Nat → Reading Nat
  | 0 => pure stop
  | fuel + 1 => do
    match ← peekAt 0 with
    | some tok =>
      if tok.kind == .atom || tok.kind == .dot then do
        let _ ← next
        joinAtoms tok.span.stop fuel
      else if tok.kind == .whitespace then do
        match ← peekAt 1 with
        | some word =>
          if word.kind == .atom then do
            let _ ← next
            let _ ← next
            joinAtoms word.span.stop fuel
          else pure stop
        | none => pure stop
      else pure stop
    | none => pure stop

/-- A scalar starting with a token that can be one. -/
def scalar (tok : Token) (fuel : Nat) : Reading Unit := do
  match tok.kind.encoding with
  | some e => emit .scalar tok.span (some e)
  | none =>
    let stop ← joinAtoms tok.span.stop fuel
    emit .scalar ⟨tok.span.start, stop⟩ none

/-- What an inline table needs next. -/
inductive Needs where
  | key
  | equals
  | value
  | comma
  deriving DecidableEq, Repr

/-- What an inline table expects when it needs something. -/
def Needs.expected : Needs → List Expected
  | .key => [.description "key"]
  | .equals => [.literal "="]
  | .value => [.description "value"]
  | .comma => [.literal ","]

/-- Refuses a value or table right after a key in an inline table. -/
def missingEquals (tok : Token) : Reading Unit :=
  fail "missing assignment between key-value pairs" (some [.literal "="]) tok.span.before

/-- Refuses a comma between two array items that have none. -/
def missingComma (needsValue : Bool) (tok : Token) : Reading Unit :=
  if needsValue then pure ()
  else fail "missing comma between array elements" (some [.literal ","]) tok.span.before

mutual

/-- A value after an equals sign. -/
def value : Nat → Reading Unit
  | 0 => pure ()
  | fuel + 1 => do
    match ← next with
    | none => do
      let prev ← lastSignificant
      fail "missing value" (some [.description "value"]) prev.after
    | some tok =>
      match tok.kind with
      | .comment | .comma | .newline | .eof | .whitespace => do
        emit .scalar tok.span.before none
        back
      | .equals => fail "extra `=`" (some []) tok.span
      | .openBrace => inlineTable tok fuel
      | .closeBrace =>
        fail "missing inline table opening" (some [.literal "\x7b"]) tok.span.before
      | .openBracket => array tok fuel
      | .closeBracket => fail "missing array opening" (some [.literal "["]) tok.span.before
      | _ => scalar tok fuel

/-- An array after its opening bracket. -/
def array (openTok : Token) : Nat → Reading Unit
  | 0 => pure ()
  | fuel + 1 => do
    emit .arrayOpen openTok.span none
    arrayItems true fuel

/-- The items of an array; `needsValue` while an item must come before the next comma. -/
def arrayItems (needsValue : Bool) : Nat → Reading Unit
  | 0 => pure ()
  | fuel + 1 => do
    match ← next with
    | none => unclosedArray
    | some tok =>
      match tok.kind with
      | .comment => do onComment tok; arrayItems needsValue fuel
      | .whitespace => do emit .whitespace tok.span none; arrayItems needsValue fuel
      | .newline => do newline tok; arrayItems needsValue fuel
      | .eof => unclosedArray
      | .comma =>
        if needsValue then fail "extra comma in array" (some [.description "value"]) tok.span
        else do emit .valueSep tok.span none; arrayItems true fuel
      | .equals =>
        fail "unexpected `=` in array" (some [.description "value", .literal "]"]) tok.span
      | .openBrace => do
        missingComma needsValue tok
        inlineTable tok fuel
        arrayItems false fuel
      | .closeBrace => do
        missingComma needsValue tok
        fail "missing inline table opening" (some [.literal "\x7b"]) tok.span.before
      | .openBracket => do
        missingComma needsValue tok
        array tok fuel
        arrayItems false fuel
      | .closeBracket => emit .arrayClose tok.span none
      | _ => do
        missingComma needsValue tok
        scalar tok fuel
        arrayItems false fuel

def unclosedArray : Reading Unit := do
  let prev ← lastSignificant
  fail "unclosed array" (some [.literal "]"]) prev.after

/-- An inline table after its opening brace. -/
def inlineTable (openTok : Token) : Nat → Reading Unit
  | 0 => pure ()
  | fuel + 1 => do
    emit .inlineTableOpen openTok.span none
    inlineEntries .key fuel

/-- The entries of an inline table, with what it needs next. -/
def inlineEntries (needs : Needs) : Nat → Reading Unit
  | 0 => pure ()
  | fuel + 1 => do
    match ← next with
    | none => unclosedInlineTable
    | some tok =>
      match tok.kind with
      | .comment => do onComment tok; inlineEntries needs fuel
      | .whitespace => do emit .whitespace tok.span none; inlineEntries needs fuel
      | .newline => do newline tok; inlineEntries needs fuel
      | .eof => unclosedInlineTable
      | .comma =>
        if needs == .comma then do emit .valueSep tok.span none; inlineEntries .key fuel
        else fail "extra comma in inline table" (some needs.expected) tok.span
      | .equals =>
        match needs with
        | .key => do
          emit .simpleKey tok.span.before none
          emit .keyValSep tok.span none
          inlineEntries .value fuel
        | .equals => do
          emit .keyValSep tok.span none
          inlineEntries .value fuel
        | _ => fail "extra assignment between key-value pairs" (some needs.expected) tok.span
      | .openBrace =>
        match needs with
        | .value => do inlineTable tok fuel; inlineEntries .comma fuel
        | .equals => missingEquals tok
        | _ => fail "missing key for inline table element" (some needs.expected) tok.span.before
      | .closeBrace => do
        if needs == .equals then emit .keyValSep tok.span.before none
        if needs == .equals || needs == .value then emit .scalar tok.span.before (some .literal)
        emit .inlineTableClose tok.span none
      | .openBracket =>
        match needs with
        | .value => do array tok fuel; inlineEntries .comma fuel
        | .equals => missingEquals tok
        | _ => fail "missing key for inline table element" (some needs.expected) tok.span.before
      | .closeBracket =>
        match needs with
        | .value => fail "missing array opening" (some [.literal "["]) tok.span.before
        | _ => fail "invalid inline table element" (some needs.expected) tok.span.before
      | _ =>
        match needs with
        | .key => do
          if tok.kind == .dot then do
            emit .simpleKey tok.span.before none
            back
          else emit .simpleKey tok.span tok.kind.encoding
          let _ ← dotKeys fuel
          inlineEntries .equals fuel
        | .equals => missingEquals tok
        | .value => do scalar tok fuel; inlineEntries .comma fuel
        | .comma => fail "missing comma between key-value pairs" (some [.literal ","]) tok.span.before

def unclosedInlineTable : Reading Unit := do
  let prev ← lastSignificant
  fail "unclosed inline table" (some [.literal "\x7d"]) prev.after

end

/-- The rest of a key and value after the equals sign. -/
def afterEquals (eq : Token) (fuel : Nat) : Reading Unit := do
  emit .keyValSep eq.span none
  optWhitespace
  value fuel
  lineEnd fuel

/-- A key and value, after the key's first part. -/
def keyValue (fuel : Nat) : Reading Unit := do
  let _ ← dotKeys fuel
  optWhitespace
  match ← nextIf (· == .equals) with
  | some eq => afterEquals eq fuel
  | none =>
    match ← peekAt 0 with
    | some tok => fail "key with no value" (some [.literal "="]) tok.span.before
    | none => ignoreToNewline fuel

/-- A table header after its first bracket, then the rest of its line. -/
def header (openTok : Token) (fuel : Nat) : Reading Unit := do
  let isArray ←
    match ← nextIf (· == .openBracket) with
    | some second => do emit .arrayTableOpen (openTok.span.append second.span) none; pure true
    | none => do emit .stdTableOpen openTok.span none; pure false
  optWhitespace
  let validKey ← headerKey "invalid table" fuel
  optWhitespace
  let closed ←
    match ← nextIf (· == .closeBracket) with
    | some close =>
      if isArray then
        match ← nextIf (· == .closeBracket) with
        | some second => do emit .arrayTableClose (close.span.append second.span) none; pure true
        | none => fail "unclosed array table" (some [.literal "]"]) close.span.after
      else do emit .stdTableClose close.span none; pure true
    | none =>
      if validKey then do
        let c ← get
        let last := (solidBefore c.tokens c.pos).getD openTok
        if isArray then fail "unclosed array table" (some [.literal "]]"]) last.span.after
        else fail "unclosed table" (some [.literal "]"]) last.span.after
      else pure false
  if closed then lineEnd fuel else ignoreToNewline fuel

/-- The items of a document, line after line. -/
def document : Nat → Reading Unit
  | 0 => pure ()
  | fuel + 1 => do
    match ← next with
    | none => pure ()
    | some tok =>
      match tok.kind with
      | .openBracket => do header tok fuel; document fuel
      | .closeBracket => fail "missing table open" (some [.literal "["]) tok.span.before
      | .equals => do
        emit .simpleKey tok.span.before none
        afterEquals tok fuel
        document fuel
      | .dot => do
        emit .simpleKey tok.span.before none
        back
        keyValue fuel
        document fuel
      | .comma | .openBrace | .closeBrace =>
        fail "invalid key-value pair" (some [.description "key"]) tok.span.before
      | .whitespace => do emit .whitespace tok.span none; document fuel
      | .newline => do newline tok; document fuel
      | .comment => do onComment tok; document fuel
      | .eof => pure ()
      | _ => do
        emit .simpleKey tok.span tok.kind.encoding
        keyValue fuel
        document fuel

end Events

/-- The events of a text from `start` on, or the first problem in its shape. -/
def events (t : Text) (start : Nat) : Except Problem (Array Event) :=
  let tokens := tokenize t start
  match (Events.document (2 * tokens.size + 4)).run ⟨t, tokens, 0, #[]⟩ with
  | .ok (_, c) => .ok c.events
  | .error p => .error p

end Monorepo.Toml
