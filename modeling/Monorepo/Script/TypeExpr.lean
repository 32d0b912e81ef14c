import Monorepo.Script.Reader

/-! Type annotations. The codemods never look inside a type, so a type is read for its extent
and its errors only: unions, intersections, conditional and function types, object types,
generic arguments and array suffixes are followed, while tuples, parameter lists of function
types and generic parameter lists are read as balanced groups. String literals inside keep
their kind, since the quote style of a file is taken from its first string, and an import type
`import("m")` is kept as a call of `import`, since it names a module. -/

namespace Monorepo.Script

namespace Reader

/-- The leaf for a token read inside a type or a balanced group. -/
def looseLeaf (t : Token) : Reader Node :=
  match t.kind with
  | .string => leafOf t .string
  | .number => leafOf t .number
  | .template => leafOf t .templateString
  | .word => leafOf t (.named "type_identifier")
  | _ => tokenLeaf t

def closerOf (s : String) : Option Char :=
  if s == "(" then some ')' else if s == "[" then some ']' else if s == "\x7b" then some '}'
  else none

/-- Reads a balanced group whose opener is the next token, up to its matching closer; with
`angles`, `<` and `>` pair up as well. `fuel` bounds the number of tokens. -/
def group (angles : Bool) (fuel : Nat) : Reader (List Node) :=
  go [] fuel
where
  go (stack : List Char) : Nat → Reader (List Node)
    | 0 => fail
    | fuel + 1 => do
      let (cs, t) ← peekWithComments
      if t.kind == .eof || t.kind == .invalid then fail
      else
        let opener := if t.kind == .punct then closerOf t.text else none
        let isAngleOpen := angles && t.kind == .punct && t.text == "<"
        let isCloser := t.kind == .punct &&
          (t.text == ")" || t.text == "]" || t.text == "\x7d" || (angles && t.text == ">"))
        if t.kind == .templateHead then
          pass cs t
          let leaf ← leafOf t .templateString
          return leaf :: (← go ('t' :: stack) fuel)
        else if let some c := opener then
          pass cs t
          let leaf ← tokenLeaf t
          return leaf :: (← go (c :: stack) fuel)
        else if isAngleOpen then
          pass cs t
          let leaf ← tokenLeaf t
          return leaf :: (← go ('>' :: stack) fuel)
        else if isCloser then
          match stack with
          | 't' :: rest =>
            if t.text == "\x7d" then
              match (← source).scanTemplateChunk t.start with
              | some (chunk, closed) =>
                pass cs chunk
                let leaf ← leafOf chunk .templateString
                if closed then
                  if rest.isEmpty then return [leaf] else return leaf :: (← go rest fuel)
                else return leaf :: (← go stack fuel)
              | none => fail
            else fail
          | c :: rest =>
            if t.text == c.toString then
              pass cs t
              let leaf ← tokenLeaf t
              if rest.isEmpty then return [leaf] else return leaf :: (← go rest fuel)
            else fail
          | [] => fail
        else
          pass cs t
          let leaf ← looseLeaf t
          if stack.isEmpty then return [leaf] else return leaf :: (← go stack fuel)

/-- Words that begin a type by themselves or as a prefix. -/
def typePrefixes : List String := ["keyof", "unique", "readonly", "infer", "asserts"]

mutual

/-- Reads a type: members joined by `|` or `&`, then an optional conditional. -/
def typeExpr : Nat → Reader (List Node)
  | 0 => fail
  | fuel + 1 => do
    let mut out : List Node := []
    if let some op ← accept "|" then out := [op]
    else if let some op ← accept "&" then out := [op]
    out := out ++ (← typeOperand fuel)
    for _ in [0:fuel] do
      match ← accept "|" with
      | some op => out := out ++ [op] ++ (← typeOperand fuel)
      | none =>
        match ← accept "&" with
        | some op => out := out ++ [op] ++ (← typeOperand fuel)
        | none => break
    let t ← peek
    if Token.is t "extends" && !t.newlineBefore then
      let kw ← expect "extends"
      let test ← typeOperand fuel
      let q ← expect "?"
      let yes ← typeExpr fuel
      let colon ← expect ":"
      let no ← typeExpr fuel
      out := out ++ [kw] ++ test ++ [q] ++ yes ++ [colon] ++ no
    return out

/-- Reads one member of a union or intersection, with its array and index suffixes. -/
def typeOperand : Nat → Reader (List Node)
  | 0 => fail
  | fuel + 1 => do
    let t ← peek
    let base ←
      if t.kind == .word && typePrefixes.contains t.text &&
          !(← peekSecond).newlineBefore && (← peekSecond).kind != .eof &&
          !(Token.is (← peekSecond) ",") && !(Token.is (← peekSecond) ")") &&
          !(Token.is (← peekSecond) ">") && !(Token.is (← peekSecond) "]") &&
          !(Token.is (← peekSecond) "=") && !(Token.is (← peekSecond) ";") then do
        let _ ← next
        let kw ← tokenLeaf t
        return kw :: (← typeOperand fuel)
      else typePrimary fuel
    let mut out := base
    for _ in [0:fuel] do
      let u ← peek
      if Token.is u "[" && !u.newlineBefore then
        out := out ++ (← group false fuel)
      else break
    return out

/-- Reads a primary type. -/
def typePrimary : Nat → Reader (List Node)
  | 0 => fail
  | fuel + 1 => do
    let t ← peek
    if Token.is t "(" then
      let after ← afterGroup
      if after.any (Token.is · "=>") then
        let params ← group false fuel
        let arrow ← expect "=>"
        return params ++ [arrow] ++ (← typeExpr fuel)
      else
        let op ← expect "("
        let inner ← typeExpr fuel
        let cl ← expect ")"
        return op :: inner ++ [cl]
    else if Token.is t "<" then
      let params ← group true fuel
      let ps ← group false fuel
      let arrow ← expect "=>"
      return params ++ ps ++ [arrow] ++ (← typeExpr fuel)
    else if Token.is t "new" || Token.is t "abstract" then
      let _ ← next
      let kw ← tokenLeaf t
      let rest ← typePrimary fuel
      return kw :: rest
    else if Token.is t "\x7b" then objectType fuel
    else if Token.is t "[" then group false fuel
    else if Token.is t "-" then
      let minus ← expect "-"
      let n ← next
      if n.kind != .number then fail
      return [minus, ← leafOf n .number]
    else if t.kind == .string || t.kind == .number || t.kind == .template then
      let _ ← next
      return [← looseLeaf t]
    else if t.kind == .templateHead then group false fuel
    else if Token.is t "typeof" then
      let _ ← next
      let kw ← tokenLeaf t
      if (← isAt "import") then return [kw, ← importType fuel]
      return kw :: (← typeName fuel)
    else if Token.is t "import" then return [← importType fuel]
    else if t.kind == .word then
      let name ← typeName fuel
      let u ← peek
      if Token.is u "is" && !u.newlineBefore then
        let kw ← expect "is"
        return name ++ [kw] ++ (← typeExpr fuel)
      else return name
    else fail

/-- Reads a dotted type name with optional generic arguments. -/
def typeName : Nat → Reader (List Node)
  | 0 => fail
  | fuel + 1 => do
    let t ← nextWord
    let mut out := [← looseLeaf t]
    for _ in [0:fuel] do
      match ← accept "." with
      | some dot =>
        let w ← nextWord
        out := out ++ [dot, ← looseLeaf w]
      | none => break
    let u ← peek
    if Token.is u "<" && !u.newlineBefore then out := out ++ (← typeArguments fuel)
    return out

/-- Reads type arguments, `<A, B>`. -/
def typeArguments : Nat → Reader (List Node)
  | 0 => fail
  | fuel + 1 => do
    let op ← expect "<"
    let mut out := [op]
    for _ in [0:fuel] do
      out := out ++ (← typeExpr fuel)
      match ← accept "," with
      | some comma =>
        out := out ++ [comma]
        if let some cl ← accept ">" then return out ++ [cl]
      | none => return out ++ [← expect ">"]
    fail

/-- Reads an import type: `import("m")` followed by member accesses and calls, but no type
arguments. -/
def importType : Nat → Reader Node
  | 0 => fail
  | fuel + 1 => do
    let kwTok ← nextIf (Token.is · "import")
    let kw ← leafOf kwTok .importKeyword
    if !(← isAt "(") then fail
    let args ← group false fuel
    let mut e := Node.span .callExpression
      [kw.withField .callee, (Node.span .arguments args kw.stop).withField .arguments] kw.start
    for _ in [0:fuel] do
      if let some dot ← accept "." then
        let w ← nextWord
        e := Node.span .memberExpression [e, dot, ← leafOf w .propertyIdentifier] e.start
      else if (← isAt "(") then
        let more ← group false fuel
        e := Node.span .callExpression [e.withField .callee,
          (Node.span .arguments more e.stop).withField .arguments] e.start
      else break
    return e

/-- Reads an object type: members separated by commas, semicolons or line breaks. -/
def objectType : Nat → Reader (List Node)
  | 0 => fail
  | fuel + 1 => do
    let op ← expect "\x7b"
    let mut out := [op]
    for _ in [0:fuel] do
      if let some cl ← accept "\x7d" then return out ++ [cl]
      out := out ++ (← typeMember fuel)
      if let some sep ← accept "," then out := out ++ [sep]
      else if let some sep ← accept ";" then out := out ++ [sep]
      else if !(← isAt "\x7d") && !(← peek).newlineBefore then fail
    fail

/-- Reads one member of an object type: a property, a method, a call or construct signature,
an index signature or a mapped key, with their modifiers. -/
def typeMember : Nat → Reader (List Node)
  | 0 => fail
  | fuel + 1 => do
    let mut head : List Node := []
    for _ in [0:3] do
      let t ← peek
      let u ← peekSecond
      if (Token.is t "-" || Token.is t "+") && Token.is u "readonly" then
        head := head ++ [← tokenLeaf (← next), ← tokenLeaf (← next)]
      else if t.kind == .word && ["readonly", "get", "set"].contains t.text &&
          !(u.kind == .eof || [":", ",", ";", "\x7d", "(", "<", "?", "!"].any (Token.is u)) then
        head := head ++ [← tokenLeaf (← next)]
      else break
    let t ← peek
    if Token.is t "(" || Token.is t "<" then return head ++ (← signatureRest fuel)
    if Token.is t "new" && ((← isSecond "(") || (← isSecond "<")) then
      let kw ← tokenLeaf (← next)
      return head ++ [kw] ++ (← signatureRest fuel)
    let key ←
      if Token.is t "[" then group false fuel
      else if t.kind == .word || t.kind == .string || t.kind == .number then pure [← looseLeaf (← next)]
      else fail
    let mut mark : List Node := []
    if (← isAt "-") || (← isAt "+") then mark := [← tokenLeaf (← next)]
    if let some q ← accept "?" then mark := mark ++ [q]
    else if mark.isEmpty then
      if let some b ← accept "!" then mark := [b]
    if (← isAt "(") || (← isAt "<") then return head ++ key ++ mark ++ (← signatureRest fuel)
    if let some colon ← accept ":" then return head ++ key ++ mark ++ [colon] ++ (← typeExpr fuel)
    return head ++ key ++ mark

/-- Reads the rest of a signature: generic parameters, parameters and a return type. -/
def signatureRest : Nat → Reader (List Node)
  | 0 => fail
  | fuel + 1 => do
    let tps ← if (← isAt "<") then group true fuel else pure []
    if !(← isAt "(") then fail
    let ps ← group false fuel
    let ret ←
      match ← accept ":" with
      | some colon => pure (colon :: (← typeExpr fuel))
      | none => pure []
    return tps ++ ps ++ ret

end

/-- Whether read type arguments query an import type, `typeof import("m")`. The grammar reads
a call written with such arguments, `f<typeof import("m")>(x)`, as two comparisons. -/
def queriesImport : List Node → Bool
  | a :: b :: rest =>
    (a.kind == .token "typeof" && b.kind == .callExpression) || queriesImport (b :: rest)
  | _ => false

/-- Reads `: T` as a type annotation node. -/
def typeAnnotation (fuel : Nat) : Reader Node := do
  let colon ← expect ":"
  let ty ← typeExpr fuel
  return Node.span (.named "type_annotation") (colon :: ty) colon.start

end Reader

end Monorepo.Script
