import Monorepo.Script.TypeExpr

/-! The grammar of TypeScript and JavaScript modules, read by recursive descent. Every reader
takes a fuel argument that bounds its depth, and loops run over a bounded range, so the whole
grammar is total.

A failure records the token that could not be read; where it is reported is worked out
afterwards (see `Script.Recovery`). A few places decide it here: a pair with no value is
reported right after its colon; when the member before an unexpected token in an object literal
holds a shorthand-only object literal, the text could still have been a destructuring pattern,
and the failure is reported where that reading gives up; and import attributes on a re-export
are reported at the token after `export`. -/

namespace Monorepo.Script

namespace Reader

/-- Words that never name a variable. -/
def reservedWords : List String :=
  ["break", "case", "catch", "class", "const", "continue", "debugger", "default", "delete", "do",
   "else", "enum", "export", "extends", "false", "finally", "for", "function", "if", "import", "in",
   "instanceof", "new", "null", "return", "super", "switch", "this", "throw", "true", "try",
   "typeof", "var", "void", "while", "with"]

def Token.isName (t : Token) : Bool := t.kind == .word && !reservedWords.contains t.text

/-- Binding strength of a binary operator, and whether it groups to the right. -/
def binaryPrecedence (op : String) : Option Nat :=
  if op == "??" then some 1
  else if op == "||" then some 2
  else if op == "&&" then some 3
  else if op == "|" then some 4
  else if op == "^" then some 5
  else if op == "&" then some 6
  else if ["==", "!=", "===", "!=="].contains op then some 7
  else if ["<", ">", "<=", ">=", "instanceof", "in", "as", "satisfies"].contains op then some 8
  else if ["<<", ">>", ">>>"].contains op then some 9
  else if op == "+" || op == "-" then some 10
  else if op == "*" || op == "/" || op == "%" then some 11
  else if op == "**" then some 12
  else none

def assignmentOperators : List String :=
  ["=", "+=", "-=", "*=", "/=", "%=", "**=", "<<=", ">>=", ">>>=", "&=", "|=", "^=", "&&=", "||=",
   "??="]

/-- Whether an expression can be assigned to: a name, a member or element, a literal that
reads as a destructuring pattern, or one of these in parentheses or with a non-null mark. -/
def isAssignable (n : Node) : Bool :=
  [Kind.identifier, .named "undefined", .memberExpression, .named "subscript_expression",
   .parenthesizedExpression, .object, .array, .nonNullExpression].contains n.kind

def unaryOperators : List String := ["!", "~", "-", "+", "typeof", "void", "delete"]

def memberModifiers : List String :=
  ["static", "public", "private", "protected", "readonly", "abstract", "override", "declare",
   "accessor", "async", "get", "set"]

/-- The next operator, with the characters after a `>` joined to it. -/
def peekOperator : Reader (List (Nat × Nat) × Token) := do
  let (cs, t) ← peekWithComments
  if t.kind == .punct && t.text == ">" then
    let src ← source
    let texts := [">>>=", ">>>", ">>=", ">>", ">=", ">"]
    match texts.find? (src.startsAt t.start ·) with
    | some op => return (cs, { t with text := op, stop := t.start + op.length })
    | none => return (cs, t)
  else return (cs, t)

/-- Whether a word at the next position is a modifier: it is followed by more of the member. -/
def modifierFollows : Reader Bool := do
  let u ← peekSecond
  return !(u.kind == .eof || ["(", "=", ";", ":", "?", "!", "\x7d", "<", ","].any (Token.is u))

def nameLeaf (t : Token) : Reader Node := leafOf t .identifier

/-- The end of the text read so far, counting comments before the next token. -/
def lastEndByte : Reader Nat := do
  let (cs, _) ← peekWithComments
  let src ← source
  match cs.getLast? with
  | some (_, e) => return src.byte e
  | none => return src.byte (← get).lastEnd

/-- Fails inside an object literal at the token after its members `members`, whose brace
would be abandoned at `region` if the literal were a pattern. -/
def failInObject {α : Type} (members : List Node) (region : Nat) : Reader α := do
  let t ← peek
  if t.kind == .eof || t.kind == .invalid then fail
  else
    let src ← source
    let lastEnd := src.byte (← get).lastEnd
    let patternFirst : Bool :=
      match members.getLast? with
      | some m =>
        match m.kind, m.child? .value with
        | .pair, some v =>
          if v.kind == .object && v.stop == lastEnd then
            let inner := v.members
            let alive := inner.all fun c =>
              c.kind == .shorthandPropertyIdentifier ||
              (c.kind == .named "spread_element" &&
                c.members.all (·.kind == .identifier))
            let commaNext : Bool :=
              match inner.head? with
              | some first =>
                match (v.after first).find? (!·.isComment) with
                | some n => n.kind == .token ","
                | none => false
              | none => false
            alive && ((members.length == 1) != commaNext)
          else false
        | _, _ => false
      | none => false
    if patternFirst then failAt region else fail

/-- Reads a JSX name at the next position: letters, digits and dashes, then `.` or `:` parts. -/
def jsxName : Reader Node := do
  let t ← peek
  let src ← source
  let part (i : Nat) : Nat := src.skipWhile (fun c => isNamePart c || c == '-') i
  if !isNameStart t.text.front && t.kind != .word then fail
  let e1 := part t.start
  let e2 :=
    if src.at e1 == ':' then part (e1 + 1)
    else
      let rec dots (i : Nat) (fuel : Nat) : Nat :=
        match fuel with
        | 0 => i
        | f + 1 => if src.at i == '.' && isNameStart (src.at (i + 1)) then dots (part (i + 1)) f else i
      dots e1 src.size
  let (cs, _) ← peekWithComments
  pass cs { t with stop := e2, text := src.slice t.start e2 }
  return Node.leaf (.named "identifier") (src.byte t.start) (src.byte e2)

/-- Reads a quoted JSX attribute value, which may span lines and has no escapes. -/
def jsxString : Reader Node := do
  let (cs, t) ← peekWithComments
  let src ← source
  let q := src.at t.start
  if !(q == '"' || q == '\'') then fail
  let e := src.skipWhile (· != q) (t.start + 1)
  if e ≥ src.size then fail
  pass cs { t with stop := e + 1 }
  return Node.leaf .string (src.byte t.start) (src.byte (e + 1))

/-- Reads JSX text up to the next `{` or `<`; text holding `>` or `}` is refused. -/
def jsxText : Reader (List Node) := do
  let s ← get
  let src ← source
  let e := src.skipWhile (fun c => c != '{' && c != '<' && c != '>' && c != '}') s.pos
  set { s with pos := e }
  if e ≥ src.size || src.at e == '>' || src.at e == '}' then fail
  let text := src.slice s.pos e
  if text.all isSpace then return []
  else return [Node.leaf (.named "jsx_text") (src.byte s.pos) (src.byte e)]

/-- Refuses import attributes after the source of a re-export, since only imports carry them;
the failure is reported at `first`, the token after `export`. -/
def refuseAttributes (first : Token) : Reader Unit := do
  let v ← peek
  if (Token.is v "with" || Token.is v "assert") && !v.newlineBefore then
    failAt ((← source).byte first.start)

/-- Whether the word at the next position is itself a property name rather than a modifier. -/
def isAtModifierEnd : Reader Bool := do
  let u ← peekSecond
  return u.kind == .eof || [":", ",", "\x7d", "(", "=", "<"].any (Token.is u)

mutual

/-- Reads an expression, joining comma-separated ones into a sequence. -/
def expression : Nat → Reader Node
  | 0 => fail
  | fuel + 1 => do
    let first ← assignment fuel
    if !(← isAt ",") then return first
    let mut items := [first]
    for _ in [0:fuel] do
      match ← accept "," with
      | some comma => items := items ++ [comma, ← assignment fuel]
      | none => break
    return Node.span (.named "sequence_expression") items first.start

/-- Reads an assignment, an arrow function, a `yield` or a conditional expression. -/
def assignment : Nat → Reader Node
  | 0 => fail
  | fuel + 1 => do
    let t ← peek
    if Token.is t "yield" then
      let kw ← expect "yield"
      let star ← accept "*"
      let u ← peek
      let arg ←
        if u.newlineBefore || u.kind == .eof ||
            [")", "]", "\x7d", ",", ";", ":"].any (Token.is u) then pure []
        else pure [← assignment fuel]
      return Node.span (.named "yield_expression") (kw :: star.toList ++ arg) kw.start
    let left ← conditional fuel
    if left.kind == .arrowFunction then return left
    let (cs, op) ← peekOperator
    if op.kind == .punct && assignmentOperators.contains op.text && isAssignable left then
      pass cs op
      let opLeaf ← tokenLeaf op
      let src ← source
      noteRegion (src.byte op.start)
      let right ← assignment fuel
      let target :=
        if left.kind == .object then left.withKind (.named "object_pattern")
        else if left.kind == .array then left.withKind (.named "array_pattern")
        else left
      let kind := if op.text == "=" then Kind.assignmentExpression
        else .named "augmented_assignment_expression"
      return Node.span kind [target.withField .left, opLeaf, right.withField .right] left.start
    else return left

/-- Reads a conditional expression. -/
def conditional : Nat → Reader Node
  | 0 => fail
  | fuel + 1 => do
    let test ← binary fuel 1
    if test.kind == .arrowFunction then return test
    match ← accept "?" with
    | some q =>
      let yes ← assignment fuel
      let colon ← expect ":"
      let no ← assignment fuel
      return Node.span (.named "ternary_expression") [test, q, yes, colon, no] test.start
    | none => return test

/-- Reads binary operators binding at least as strongly as `minPrec`. -/
def binary : Nat → Nat → Reader Node
  | 0, _ => fail
  | fuel + 1, minPrec => do
    let mut left ← unary fuel
    if left.kind == .arrowFunction then return left
    for _ in [0:fuel] do
      let (cs, op) ← peekOperator
      let prec? := if op.kind == .punct || op.kind == .word then binaryPrecedence op.text else none
      match prec? with
      | none => break
      | some prec =>
        if prec < minPrec then break
        if (op.text == "as" || op.text == "satisfies") && op.newlineBefore then break
        pass cs op
        let opLeaf ← tokenLeaf op
        if op.text == "as" || op.text == "satisfies" then
          let ty ←
            if op.text == "as" && (← isAt "const") then pure [← expect "const"]
            else typeExpr fuel
          let kind := if op.text == "as" then Kind.asExpression else .satisfiesExpression
          left := Node.span kind ([left, opLeaf] ++ ty) left.start
        else
          let right ← binary fuel (if op.text == "**" then prec else prec + 1)
          left := Node.span (.named "binary_expression")
            [left.withField .left, opLeaf.withField .operator, right.withField .right] left.start
    return left

/-- Reads a unary expression. -/
def unary : Nat → Reader Node
  | 0 => fail
  | fuel + 1 => do
    let t ← peek
    if (t.kind == .punct || t.kind == .word) && unaryOperators.contains t.text then
      let _ ← next
      let op ← tokenLeaf t
      let arg ← unary fuel
      return Node.span .unaryExpression [op.withField .operator, arg.withField .argument] op.start
    else if Token.is t "++" || Token.is t "--" then
      let _ ← next
      let op ← tokenLeaf t
      let arg ← unary fuel
      return Node.span (.named "update_expression") [op, arg] op.start
    else if Token.is t "await" then
      let u ← peekSecond
      if u.kind == .eof || [")", "]", "\x7d", ",", ";", "=", "."].any (Token.is u) then suffixed fuel
      else
        let kw ← expect "await"
        let arg ← unary fuel
        return Node.span (.named "await_expression") [kw, arg] kw.start
    else if Token.is t "<" && !(← jsx) then
      match ← attempt (arrowHead fuel) with
      | some head => arrowRest fuel head
      | none =>
        let ty ← typeArguments fuel
        let arg ← unary fuel
        return Node.span (.named "type_assertion") (ty ++ [arg]) t.start
    else suffixed fuel

/-- Reads a call or member expression and a postfix update. -/
def suffixed : Nat → Reader Node
  | 0 => fail
  | fuel + 1 => do
    let e ← callMember fuel true
    if e.kind == .arrowFunction then return e
    let t ← peek
    if (Token.is t "++" || Token.is t "--") && !t.newlineBefore then
      let _ ← next
      let op ← tokenLeaf t
      return Node.span (.named "update_expression") [e, op] e.start
    else return e

/-- Reads a primary expression followed by member accesses, and calls when `calls` holds. -/
def callMember : Nat → Bool → Reader Node
  | 0, _ => fail
  | fuel + 1, calls => do
    let mut e ← primary fuel
    if e.kind == .arrowFunction then return e
    for _ in [0:fuel] do
      let t ← peek
      if Token.is t "." || Token.is t "?." then
        let dot ← tokenLeaf (← next)
        let u ← peek
        if Token.is t "?." && Token.is u "(" then
          if !calls then break
          let args ← argumentList fuel
          e := Node.span .callExpression [e.withField .callee, dot, args.withField .arguments] e.start
        else if Token.is t "?." && Token.is u "[" then
          let op ← expect "["
          let index ← expression fuel
          let cl ← expect "]"
          e := Node.span (.named "subscript_expression") [e, dot, op, index, cl] e.start
        else if u.kind == .word then
          let _ ← next
          let prop ← leafOf u .propertyIdentifier
          e := Node.span .memberExpression [e, dot, prop] e.start
        else if u.kind == .privateName then
          let _ ← next
          let prop ← leafOf u (.named "private_property_identifier")
          e := Node.span .memberExpression [e, dot, prop] e.start
        else fail
      else if Token.is t "[" then
        let op ← expect "["
        let index ← expression fuel
        let cl ← expect "]"
        e := Node.span (.named "subscript_expression") [e, op, index, cl] e.start
      else if Token.is t "(" && calls then
        let args ← argumentList fuel
        e := Node.span .callExpression [e.withField .callee, args.withField .arguments] e.start
      else if (t.kind == .template || t.kind == .templateHead) && !t.newlineBefore && calls then
        let tpl ← template fuel
        e := Node.span .callExpression [e.withField .callee, tpl.withField .arguments] e.start
      else if Token.is t "<" && !t.newlineBefore && calls then
        let typed ← attempt do
          let tys ← typeArguments fuel
          if queriesImport tys then fail
          let u ← peek
          if Token.is u "(" then
            let args ← argumentList fuel
            return Node.span .callExpression
              ([e.withField .callee] ++ tys ++ [args.withField .arguments]) e.start
          else if u.kind == .template || u.kind == .templateHead then
            let tpl ← template fuel
            return Node.span .callExpression
              ([e.withField .callee] ++ tys ++ [tpl.withField .arguments]) e.start
          else fail
        match typed with
        | some call => e := call
        | none => break
      else if Token.is t "!" && !t.newlineBefore then
        let bang ← tokenLeaf (← next)
        e := Node.span .nonNullExpression [e, bang] e.start
      else break
    return e

/-- Reads a primary expression. -/
def primary : Nat → Reader Node
  | 0 => fail
  | fuel + 1 => do
    let t ← peek
    match t.kind with
    | .number => let _ ← next; leafOf t .number
    | .string => let _ ← next; leafOf t .string
    | .template | .templateHead => template fuel
    | .privateName => let _ ← next; leafOf t (.named "private_property_identifier")
    | .word =>
      if t.text == "function" then functionRest fuel []
      else if t.text == "async" then
        let u ← peekSecond
        if Token.is u "function" && !u.newlineBefore then
          let kw ← tokenLeaf (← next)
          functionRest fuel [kw]
        else if Token.isName u && !u.newlineBefore &&
            Token.is ((← source).scan u.stop).2 "=>" then
          let kw ← tokenLeaf (← next)
          let p ← nameLeaf (← next)
          arrowRest fuel [kw, p]
        else if Token.is u "(" && !u.newlineBefore then
          let head ← attempt do
            let kw ← tokenLeaf (← next)
            let ps ← parameters fuel
            let ret ← if (← isAt ":") then pure [← typeAnnotation fuel] else pure []
            if !(← isAt "=>") then fail
            return [kw, ps] ++ ret
          match head with
          | some h => arrowRest fuel h
          | none => let _ ← next; nameLeaf t
        else let _ ← next; nameLeaf t
      else if t.text == "class" then classRest fuel []
      else if t.text == "new" then
        let kw ← expect "new"
        if let some dot ← accept "." then
          let w ← nextWord
          let target ← leafOf w .propertyIdentifier
          return Node.span (.named "meta_property") [kw, dot, target] kw.start
        let ctor ← callMember fuel false
        let tys ← if (← isAt "<") then typeArguments fuel else pure []
        let args ← if (← isAt "(") then pure [← argumentList fuel] else pure []
        return Node.span (.named "new_expression") ([kw, ctor] ++ tys ++ args) kw.start
      else if t.text == "this" || t.text == "super" then
        let _ ← next; leafOf t (.named t.text)
      else if t.text == "true" then let _ ← next; leafOf t .trueLiteral
      else if t.text == "false" then let _ ← next; leafOf t .falseLiteral
      else if t.text == "null" then let _ ← next; leafOf t .nullLiteral
      else if t.text == "undefined" then let _ ← next; leafOf t (.named "undefined")
      else if t.text == "import" then
        let _ ← next
        if let some dot ← accept "." then
          let w ← nextWord
          let target ← leafOf w .propertyIdentifier
          let kw ← leafOf t .importKeyword
          return Node.span (.named "meta_property") [kw, dot, target] kw.start
        if !(← isAt "(") then fail
        leafOf t .importKeyword
      else if Token.isName t then
        let u ← peekSecond
        if Token.is u "=>" then
          let _ ← next
          let p ← nameLeaf t
          arrowRest fuel [p]
        else let _ ← next; nameLeaf t
      else fail
    | .punct =>
      if t.text == "(" then
        let after ← afterGroup
        if after.any (Token.is · "=>") then
          let ps ← parameters fuel
          arrowRest fuel [ps]
        else
          let head ←
            if after.any (Token.is · ":") then
              attempt do
                let ps ← parameters fuel
                let ret ← typeAnnotation fuel
                if !(← isAt "=>") then fail
                return [ps, ret]
            else pure none
          match head with
          | some h => arrowRest fuel h
          | none =>
            let op ← expect "("
            noteOwnRegion
            let inner ← expression fuel
            let cl ← expect ")"
            return Node.span .parenthesizedExpression [op, inner, cl] op.start
      else if t.text == "[" then array fuel
      else if t.text == "\x7b" then object fuel
      else if t.text == "/" || t.text == "/=" then
        match (← source).scanRegex t.start t.newlineBefore with
        | some r =>
          let (cs, _) ← peekWithComments
          pass cs r
          leafOf r (.named "regex")
        | none => fail
      else if t.text == "<" then
        if ← jsx then
          let u ← peekSecond
          let third := ((← source).scan u.stop).2
          if u.kind == .word && (Token.is third "," || Token.is third "extends" || Token.is third ">") then
            match ← attempt (arrowHead fuel) with
            | some head => arrowRest fuel head
            | none => jsxElement fuel
          else jsxElement fuel
        else fail
      else fail
    | _ => fail

/-- Reads the head of a generic arrow function, `<T>(params): R`, when an arrow follows it. -/
def arrowHead : Nat → Reader (List Node)
  | 0 => fail
  | fuel + 1 => do
    let tps ← group true fuel
    let ps ← parameters fuel
    let ret ← if (← isAt ":") then pure [← typeAnnotation fuel] else pure []
    if !(← isAt "=>") then fail
    return tps ++ [ps] ++ ret

/-- Reads the rest of an arrow function after its parameters. -/
def arrowRest : Nat → List Node → Reader Node
  | 0, _ => fail
  | fuel + 1, head => do
    let ret ← if (← isAt ":") then pure [← typeAnnotation fuel] else pure []
    let arrow ← expect "=>"
    let body ← if (← isAt "\x7b") then block fuel else assignment fuel
    let start := (head.head?.map (·.start)).getD arrow.start
    return Node.span .arrowFunction (head ++ ret ++ [arrow, body.withField .body]) start

/-- Reads an object literal. -/
def object : Nat → Reader Node
  | 0 => fail
  | fuel + 1 => do
    let openTok ← peek
    let region ← regionOf openTok
    let op ← expect "\x7b"
    let mut children := [op]
    let mut members : List Node := []
    let mut closed := false
    for _ in [0:fuel] do
      if let some cl ← accept "\x7d" then
        children := children ++ [cl]
        closed := true
        break
      if let some comma ← accept "," then
        children := children ++ [comma]
        continue
      let m ← objectMember fuel region
      children := children ++ [m]
      members := members ++ [m]
      if let some comma ← accept "," then
        children := children ++ [comma]
      else if let some cl ← accept "\x7d" then
        children := children ++ [cl]
        closed := true
        break
      else failInObject members region
    if !closed then fail
    return Node.span .object children op.start

/-- Reads one member of an object literal. -/
def objectMember : Nat → Nat → Reader Node
  | 0, _ => fail
  | fuel + 1, region => do
    let t ← peek
    if Token.is t "..." then
      let dots ← expect "..."
      let arg ← assignment fuel
      return Node.span (.named "spread_element") [dots, arg] dots.start
    if Token.is t "*" then
      let star ← expect "*"
      let key ← propertyKey fuel
      methodRest fuel [star, key]
    else if t.kind == .word && ["async", "get", "set"].contains t.text &&
        !(← isAtModifierEnd) then
      let kw ← tokenLeaf (← next)
      let star ← accept "*"
      let key ← propertyKey fuel
      methodRest fuel (kw :: star.toList ++ [key])
    else
      let key ← propertyKey fuel
      let u ← peek
      if Token.is u ":" then
        let colon ← expect ":"
        let v ← peek
        if Token.is v "\x7d" || Token.is v "," then failAt (← lastEndByte)
        noteRegion region
        let value ← assignment fuel
        return Node.span .pair [key.withField .key, colon, value.withField .value] key.start
      else if Token.is u "(" || Token.is u "<" then methodRest fuel [key]
      else if t.kind == .word then
        let short := key.withKind .shorthandPropertyIdentifier
        if let some eq ← accept "=" then
          let dflt ← assignment fuel
          return Node.span (.named "object_assignment_pattern")
            [short.withKind (.named "shorthand_property_identifier_pattern"), eq, dflt] key.start
        else return short
      else fail

/-- Reads a property name: a word, a string, a number, a private name or a computed key. -/
def propertyKey : Nat → Reader Node
  | 0 => fail
  | fuel + 1 => do
    let t ← peek
    match t.kind with
    | .word => let _ ← next; leafOf t .propertyIdentifier
    | .string => let _ ← next; leafOf t .string
    | .number => let _ ← next; leafOf t .number
    | .privateName => let _ ← next; leafOf t (.named "private_property_identifier")
    | _ =>
      if Token.is t "[" then
        let op ← expect "["
        let e ← assignment fuel
        let cl ← expect "]"
        return Node.span (.named "computed_property_name") [op, e, cl] op.start
      else fail

/-- Reads the rest of a method after its name: parameters, return type and body. -/
def methodRest : Nat → List Node → Reader Node
  | 0, _ => fail
  | fuel + 1, head => do
    let tps ← if (← isAt "<") then group true fuel else pure []
    let ps ← parameters fuel
    let ret ← if (← isAt ":") then pure [← typeAnnotation fuel] else pure []
    if (← isAt "\x7b") then
      let body ← block fuel
      let start := (head.head?.map (·.start)).getD body.start
      return Node.span (.named "method_definition") (head ++ tps ++ [ps] ++ ret ++ [body.withField .body])
        start
    else
      let semi ← semicolon
      let start := (head.head?.map (·.start)).getD ps.start
      return Node.span (.named "method_signature") (head ++ tps ++ [ps] ++ ret ++ semi) start

/-- Reads the body of an enum: members with optional values, separated by commas. -/
def enumBody : Nat → Reader Node
  | 0 => fail
  | fuel + 1 => do
    let op ← expect "\x7b"
    let mut children := [op]
    for _ in [0:fuel] do
      if let some cl ← accept "\x7d" then
        return Node.span (.named "enum_body") (children ++ [cl]) op.start
      let key ← propertyKey fuel
      let member ←
        match ← accept "=" with
        | some eq => pure (Node.span (.named "enum_assignment") [key, eq, ← assignment fuel] key.start)
        | none => pure key
      children := children ++ [member]
      if let some comma ← accept "," then children := children ++ [comma]
      else if !(← isAt "\x7d") then fail
    fail

/-- Reads an array literal. -/
def array : Nat → Reader Node
  | 0 => fail
  | fuel + 1 => do
    let op ← expect "["
    let mut children := [op]
    let mut closed := false
    for _ in [0:fuel] do
      if let some cl ← accept "]" then
        children := children ++ [cl]
        closed := true
        break
      if let some comma ← accept "," then
        children := children ++ [comma]
        continue
      let item ←
        if (← isAt "...") then
          let dots ← expect "..."
          let arg ← assignment fuel
          pure (Node.span (.named "spread_element") [dots, arg] dots.start)
        else assignment fuel
      children := children ++ [item]
      if let some comma ← accept "," then children := children ++ [comma]
      else if let some cl ← accept "]" then
        children := children ++ [cl]
        closed := true
        break
      else fail
    if !closed then fail
    return Node.span .array children op.start

/-- Reads the arguments of a call. -/
def argumentList : Nat → Reader Node
  | 0 => fail
  | fuel + 1 => do
    let op ← expect "("
    let mut children := [op]
    let mut closed := false
    for _ in [0:fuel] do
      if let some cl ← accept ")" then
        children := children ++ [cl]
        closed := true
        break
      if let some comma ← accept "," then
        children := children ++ [comma]
        continue
      let item ←
        if (← isAt "...") then
          let dots ← expect "..."
          let arg ← assignment fuel
          pure (Node.span (.named "spread_element") [dots, arg] dots.start)
        else
          noteOwnRegion
          assignment fuel
      children := children ++ [item]
      if let some comma ← accept "," then children := children ++ [comma]
      else if let some cl ← accept ")" then
        children := children ++ [cl]
        closed := true
        break
      else fail
    if !closed then fail
    return Node.span .arguments children op.start

/-- Reads a template literal with its substitutions. -/
def template : Nat → Reader Node
  | 0 => fail
  | fuel + 1 => do
    let (cs, t) ← peekWithComments
    let src ← source
    pass cs t
    if t.kind == .template then leafOf t .templateString
    else if t.kind != .templateHead then fail
    else
      let startByte := src.byte t.start
      let tick := Node.leaf (.token "`") startByte (startByte + 1)
      let mut children := [tick]
      let mut openAt := src.byte t.stop - 2
      let mut closed := false
      for _ in [0:fuel] do
        let e ← expression fuel
        let cl ← peek
        if !Token.is cl "\x7d" then fail
        match src.scanTemplateChunk cl.start with
        | none => fail
        | some (chunk, last) =>
          let (cs2, _) ← peekWithComments
          pass cs2 chunk
          let closeAt := src.byte cl.start
          let sub := Node.span .templateSubstitution
            [Node.leaf (.token "$\x7b") openAt (openAt + 2), e,
             Node.leaf (.token "\x7d") closeAt (closeAt + 1)] openAt
          children := children ++ [sub]
          if last then
            let endByte := src.byte chunk.stop
            children := children ++ [Node.leaf (.token "`") (endByte - 1) endByte]
            closed := true
            break
          else openAt := src.byte chunk.stop - 2
      if !closed then fail
      return Node.span .templateString children startByte

/-- Reads a parameter list. -/
def parameters : Nat → Reader Node
  | 0 => fail
  | fuel + 1 => do
    let op ← expect "("
    let mut children := [op]
    let mut closed := false
    for _ in [0:fuel] do
      if let some cl ← accept ")" then
        children := children ++ [cl]
        closed := true
        break
      let p ← parameter fuel
      children := children ++ [p]
      if let some comma ← accept "," then children := children ++ [comma]
      else if let some cl ← accept ")" then
        children := children ++ [cl]
        closed := true
        break
      else fail
    if !closed then fail
    return Node.span (.named "formal_parameters") children op.start

/-- Reads one parameter: modifiers, a pattern, an optional mark, a type and a default. -/
def parameter : Nat → Reader Node
  | 0 => fail
  | fuel + 1 => do
    let mut head : List Node := []
    for _ in [0:fuel] do
      let t ← peek
      if Token.is t "@" then
        let atSign ← expect "@"
        let e ← callMember fuel true
        head := head ++ [Node.span (.named "decorator") [atSign, e] atSign.start]
      else if t.kind == .word && ["public", "private", "protected", "readonly", "override"].contains t.text
          && !(← isAtModifierEnd) && !(Token.is (← peekSecond) ")") then
        head := head ++ [← tokenLeaf (← next)]
      else break
    let pat ←
      if (← isAt "...") then
        let dots ← expect "..."
        let inner ← pattern fuel
        pure (Node.span (.named "rest_pattern") [dots, inner] dots.start)
      else pattern fuel
    let mark ← accept "?"
    let ty ← if (← isAt ":") then pure [← typeAnnotation fuel] else pure []
    let dflt ←
      match ← accept "=" with
      | some eq => pure [eq, ← assignment fuel]
      | none => pure []
    let kind := if mark.isSome then Kind.named "optional_parameter" else .named "required_parameter"
    return Node.span kind (head ++ [pat] ++ mark.toList ++ ty ++ dflt) pat.start

/-- Reads a binding pattern: a name, or an object or array pattern. -/
def pattern : Nat → Reader Node
  | 0 => fail
  | fuel + 1 => do
    let t ← peek
    if Token.is t "\x7b" then
      let op ← expect "\x7b"
      let mut children := [op]
      let mut closed := false
      for _ in [0:fuel] do
        if let some cl ← accept "\x7d" then
          children := children ++ [cl]
          closed := true
          break
        if let some comma ← accept "," then
          children := children ++ [comma]
          continue
        let u ← peek
        let item ←
          if Token.is u "..." then
            let dots ← expect "..."
            let inner ← pattern fuel
            pure (Node.span (.named "rest_pattern") [dots, inner] dots.start)
          else
            let key ← propertyKey fuel
            if let some colon ← accept ":" then
              let value ← patternWithDefault fuel
              pure (Node.span (.named "pair_pattern") [key.withField .key, colon, value.withField .value]
                key.start)
            else if u.kind == .word then
              let short := key.withKind (.named "shorthand_property_identifier_pattern")
              match ← accept "=" with
              | some eq =>
                let dflt ← assignment fuel
                pure (Node.span (.named "object_assignment_pattern") [short, eq, dflt] short.start)
              | none => pure short
            else fail
        children := children ++ [item]
        if let some comma ← accept "," then children := children ++ [comma]
        else if let some cl ← accept "\x7d" then
          children := children ++ [cl]
          closed := true
          break
        else fail
      if !closed then fail
      return Node.span (.named "object_pattern") children op.start
    else if Token.is t "[" then
      let op ← expect "["
      let mut children := [op]
      let mut closed := false
      for _ in [0:fuel] do
        if let some cl ← accept "]" then
          children := children ++ [cl]
          closed := true
          break
        if let some comma ← accept "," then
          children := children ++ [comma]
          continue
        let item ←
          if (← isAt "...") then
            let dots ← expect "..."
            let inner ← pattern fuel
            pure (Node.span (.named "rest_pattern") [dots, inner] dots.start)
          else patternWithDefault fuel
        children := children ++ [item]
        if let some comma ← accept "," then children := children ++ [comma]
        else if let some cl ← accept "]" then
          children := children ++ [cl]
          closed := true
          break
        else fail
      if !closed then fail
      return Node.span (.named "array_pattern") children op.start
    else if Token.isName t || Token.is t "this" then
      let _ ← next
      nameLeaf t
    else fail

/-- Reads a pattern with an optional default value. -/
def patternWithDefault : Nat → Reader Node
  | 0 => fail
  | fuel + 1 => do
    let p ← pattern fuel
    match ← accept "=" with
    | some eq =>
      let dflt ← assignment fuel
      return Node.span (.named "assignment_pattern") [p, eq, dflt] p.start
    | none => return p

/-- Reads a function after the modifiers `head`: its name if any, parameters, return type and
body. A named one is a declaration, an anonymous one an expression. -/
def functionRest : Nat → List Node → Reader Node
  | 0, _ => fail
  | fuel + 1, head => do
    let kw ← expect "function"
    let star ← accept "*"
    let t ← peek
    let name ←
      if Token.isName t then pure [(← nameLeaf (← next)).withField .name]
      else pure []
    let tps ← if (← isAt "<") then group true fuel else pure []
    let ps ← parameters fuel
    let ret ← if (← isAt ":") then pure [← typeAnnotation fuel] else pure []
    let start := (head.head?.map (·.start)).getD kw.start
    if !(← isAt "\x7b") && !name.isEmpty then
      let semi ← semicolon
      return Node.span (.named "function_signature") (head ++ [kw] ++ name ++ tps ++ [ps] ++ ret ++ semi)
        start
    let body ← block fuel
    let kind :=
      if star.isSome then
        if name.isEmpty then Kind.named "generator_function" else .named "generator_function_declaration"
      else if name.isEmpty then .functionExpression else .functionDeclaration
    return Node.span kind (head ++ [kw] ++ star.toList ++ name ++ tps ++ [ps] ++ ret ++ [body.withField .body])
      start

/-- Reads a class after the modifiers `head`. A named one is a declaration. -/
def classRest : Nat → List Node → Reader Node
  | 0, _ => fail
  | fuel + 1, head => do
    let kw ← expect "class"
    let t ← peek
    let name ←
      if Token.isName t && t.text != "implements" then pure [(← nameLeaf (← next)).withField .name]
      else pure []
    let tps ← if (← isAt "<") then group true fuel else pure []
    let mut heritage : List Node := []
    if let some ext ← accept "extends" then
      let base ← callMember fuel true
      let targs ← if (← isAt "<") then typeArguments fuel else pure []
      heritage := [ext, base] ++ targs
    if let some impl ← accept "implements" then
      heritage := heritage ++ [impl] ++ (← typeExpr fuel)
      for _ in [0:fuel] do
        match ← accept "," with
        | some comma => heritage := heritage ++ [comma] ++ (← typeExpr fuel)
        | none => break
    let op ← expect "\x7b"
    let mut children := [op]
    let mut closed := false
    for _ in [0:fuel] do
      if let some cl ← accept "\x7d" then
        children := children ++ [cl]
        closed := true
        break
      if let some semi ← accept ";" then
        children := children ++ [semi]
        continue
      children := children ++ [← classMember fuel]
    if !closed then fail
    let body := Node.span (.named "class_body") children op.start
    let start := (head.head?.map (·.start)).getD kw.start
    let kind := if name.isEmpty then Kind.named "class" else .named "class_declaration"
    return Node.span kind (head ++ [kw] ++ name ++ tps ++ heritage ++ [body.withField .body]) start

/-- Reads one member of a class body. -/
def classMember : Nat → Reader Node
  | 0 => fail
  | fuel + 1 => do
    let mut head : List Node := []
    for _ in [0:fuel] do
      let t ← peek
      if Token.is t "@" then
        let atSign ← expect "@"
        let e ← callMember fuel true
        head := head ++ [Node.span (.named "decorator") [atSign, e] atSign.start]
      else if t.kind == .word && memberModifiers.contains t.text && (← modifierFollows) then
        if t.text == "static" && Token.is (← peekSecond) "\x7b" then
          let kw ← tokenLeaf (← next)
          let body ← block fuel
          return Node.span (.named "class_static_block") (head ++ [kw, body]) kw.start
        head := head ++ [← tokenLeaf (← next)]
      else break
    let star ← accept "*"
    let t ← peek
    if Token.is t "[" then
      let u ← peekSecond
      let third := ((← source).scan u.stop).2
      if u.kind == .word && Token.is third ":" then
        let sig ← group false fuel
        let ty ← if (← isAt ":") then pure [← typeAnnotation fuel] else pure []
        let semi ← semicolon
        let all := head ++ sig ++ ty ++ semi
        return Node.span (.named "index_signature") all ((all.head?.map (·.start)).getD 0)
    let key ← propertyKey fuel
    let mark ← if (← isAt "?") then accept "?" else accept "!"
    let u ← peek
    if Token.is u "(" || Token.is u "<" then methodRest fuel (head ++ star.toList ++ [key] ++ mark.toList)
    else
      let ty ← if (← isAt ":") then pure [← typeAnnotation fuel] else pure []
      let dflt ←
        match ← accept "=" with
        | some eq => pure [eq, (← assignment fuel).withField .value]
        | none => pure []
      let semi ← semicolon
      let all := head ++ [key] ++ mark.toList ++ ty ++ dflt ++ semi
      return Node.span (.named "public_field_definition") all ((all.head?.map (·.start)).getD key.start)

/-- Reads a JSX element or fragment. -/
def jsxElement : Nat → Reader Node
  | 0 => fail
  | fuel + 1 => do
    let op ← expect "<"
    let mut opening := [op]
    if let some gt ← accept ">" then
      opening := opening ++ [gt]
    else
      opening := opening ++ [← jsxName]
      let mut ended := false
      for _ in [0:fuel] do
        let t ← peek
        if Token.is t "/" then
          let slash ← expect "/"
          let gt ← expect ">"
          let whole := Node.span (.named "jsx_self_closing_element") (opening ++ [slash, gt]) op.start
          return whole
        else if Token.is t ">" then
          opening := opening ++ [← expect ">"]
          ended := true
          break
        else if Token.is t "\x7b" then
          let ob ← expect "\x7b"
          let dots ← expect "..."
          let e ← assignment fuel
          let cb ← expect "\x7d"
          opening := opening ++ [Node.span (.named "jsx_expression") [ob, dots, e, cb] ob.start]
        else
          let name ← jsxName
          match ← accept "=" with
          | some eq =>
            let u ← peek
            let value ←
              if Token.is u "\x7b" then
                let ob ← expect "\x7b"
                let e ← assignment fuel
                let cb ← expect "\x7d"
                pure (Node.span (.named "jsx_expression") [ob, e, cb] ob.start)
              else if Token.is u "<" then jsxElement fuel
              else jsxString
            opening := opening ++ [Node.span (.named "jsx_attribute") [name, eq, value] name.start]
          | none => opening := opening ++ [Node.span (.named "jsx_attribute") [name] name.start]
      if !ended then fail
    let openNode := Node.span (.named "jsx_opening_element") opening op.start
    let mut children := [openNode]
    for _ in [0:fuel] do
      children := children ++ (← jsxText)
      let t ← peek
      if Token.is t "\x7b" then
        let ob ← expect "\x7b"
        if let some cb ← accept "\x7d" then
          children := children ++ [Node.span (.named "jsx_expression") [ob, cb] ob.start]
        else
          let e ←
            if (← isAt "...") then
              let dots ← expect "..."
              let arg ← assignment fuel
              pure (Node.span (.named "spread_element") [dots, arg] dots.start)
            else expression fuel
          let cb ← expect "\x7d"
          children := children ++ [Node.span (.named "jsx_expression") [ob, e, cb] ob.start]
      else if Token.is t "<" then
        if Token.is (← peekSecond) "/" then
          let lt ← expect "<"
          let slash ← expect "/"
          let name ← if (← isAt ">") then pure [] else pure [← jsxName]
          let gt ← expect ">"
          let closing := Node.span (.named "jsx_closing_element") ([lt, slash] ++ name ++ [gt]) lt.start
          return Node.span (.named "jsx_element") (children ++ [closing]) op.start
        else children := children ++ [← jsxElement fuel]
      else fail
    fail

/-- Reads a block of statements. -/
def block : Nat → Reader Node
  | 0 => fail
  | fuel + 1 => do
    let op ← expect "\x7b"
    let mut children := [op]
    for _ in [0:fuel] do
      if let some cl ← accept "\x7d" then
        return Node.span .statementBlock (children ++ [cl]) op.start
      children := children ++ [← statement fuel]
    fail

/-- Reads the rest of a declarator after its name: a definite mark, a type and a value. -/
def declaratorRest : Nat → Node → Reader Node
  | 0, _ => fail
  | fuel + 1, name => do
    let bang ← accept "!"
    let ty ← if (← isAt ":") then pure [← typeAnnotation fuel] else pure []
    let init ←
      match ← accept "=" with
      | some eq =>
        noteRegion eq.start
        pure [eq, (← assignment fuel).withField .value]
      | none =>
        if name.kind == .named "object_pattern" || name.kind == .named "array_pattern" then fail
        pure []
    return Node.span .variableDeclarator ([name.withField .name] ++ bang.toList ++ ty ++ init) name.start

/-- Reads comma-separated declarators, the first of which is named `first`. -/
def declarators : Nat → Node → Reader (List Node)
  | 0, _ => fail
  | fuel + 1, first => do
    let mut children := [← declaratorRest fuel first]
    for _ in [0:fuel] do
      match ← accept "," with
      | some comma =>
        let name ← pattern fuel
        children := children ++ [comma, ← declaratorRest fuel name]
      | none => break
    return children

/-- Reads `const`, `let` or `var` declarations. -/
def declaration : Nat → Reader Node
  | 0 => fail
  | fuel + 1 => do
    let kwTok ← next
    let kw ← tokenLeaf kwTok
    let first ← pattern fuel
    let children ← declarators fuel first
    let semi ← semicolon
    let kind := if kwTok.text == "var" then Kind.variableDeclaration else .lexicalDeclaration
    return Node.span kind (kw :: children ++ semi) kw.start

/-- Reads the parenthesized head of a `for` statement: a declaration or an expression followed
by `of` or `in` and an expression, or three clauses separated by semicolons. -/
def forHead : Nat → Reader (List Node)
  | 0 => fail
  | fuel + 1 => do
    let op ← expect "("
    let t ← peek
    let mut init : List Node := []
    if Token.is t "const" || Token.is t "let" || Token.is t "var" then
      let kw ← tokenLeaf (← next)
      let first ← pattern fuel
      if (← isAtAny ["of", "in"]) then
        let w ← tokenLeaf (← next)
        let e ← expression fuel
        let cl ← expect ")"
        return [op, kw, first, w, e, cl]
      let children ← declarators fuel first
      let kind := if t.text == "var" then Kind.variableDeclaration else .lexicalDeclaration
      init := [Node.span kind (kw :: children) kw.start]
    else if !Token.is t ";" then
      let e ← expression fuel
      if (← isAt "of") then
        let w ← tokenLeaf (← next)
        let right ← expression fuel
        let cl ← expect ")"
        return [op, e, w, right, cl]
      if (← isAt ")") then
        let cl ← expect ")"
        return [op, e, cl]
      init := [e]
    let semi ← expect ";"
    let cond ← if (← isAt ";") then pure [] else pure [← expression fuel]
    let semi2 ← expect ";"
    let update ← if (← isAt ")") then pure [] else pure [← expression fuel]
    let cl ← expect ")"
    return [op] ++ init ++ [semi] ++ cond ++ [semi2] ++ update ++ [cl]

/-- Reads an `export` statement. -/
def exportStatement : Nat → Reader Node
  | 0 => fail
  | fuel + 1 => do
    let kw ← expect "export"
    let t ← peek
    if Token.is t "default" then
      let dflt ← expect "default"
      let u ← peek
      let isAsyncFn := Token.is u "async" && Token.is (← peekSecond) "function"
      if Token.is u "function" || isAsyncFn then
        let head ← if isAsyncFn then pure [← tokenLeaf (← next)] else pure []
        let f ← functionRest fuel head
        if f.kind == .functionDeclaration || f.kind == .named "generator_function_declaration" then
          return Node.span .exportStatement [kw, dflt, f.withField .declaration] kw.start
        let semi ← semicolon
        return Node.span .exportStatement ([kw, dflt, f.withField .value] ++ semi) kw.start
      else if Token.is u "class" then
        let c ← classRest fuel []
        if c.kind == .named "class_declaration" then
          return Node.span .exportStatement [kw, dflt, c.withField .declaration] kw.start
        let semi ← semicolon
        return Node.span .exportStatement ([kw, dflt, c.withField .value] ++ semi) kw.start
      else if Token.is u "interface" || (Token.is u "abstract" && Token.is (← peekSecond) "class") then
        let d ← statement fuel
        return Node.span .exportStatement [kw, dflt, d.withField .declaration] kw.start
      else
        noteRegion ((← source).byte (← get).statement)
        let value ← assignment fuel
        let semi ← semicolon
        return Node.span .exportStatement ([kw, dflt, value.withField .value] ++ semi) kw.start
    else if Token.is t "*" then
      let star ← expect "*"
      let ns ←
        match ← accept "as" with
        | some asKw =>
          let n ← nextIf fun n => n.kind == .string || n.kind == .word
          let nameNode ← if n.kind == .string then leafOf n .string else nameLeaf n
          pure [Node.span (.named "namespace_export") [star, asKw, nameNode] star.start]
        | none => pure [star]
      let fromKw ← expect "from"
      let src ← nextString
      let srcNode ← leafOf src .string
      refuseAttributes t
      let semi ← semicolon
      return Node.span .exportStatement ([kw] ++ ns ++ [fromKw, srcNode.withField .source] ++ semi) kw.start
    else if Token.is t "\x7b" || (Token.is t "type" && Token.is (← peekSecond) "\x7b") then
      let typeKw ← accept "type"
      let clause ← exportClause fuel
      let tail ←
        match ← accept "from" with
        | some fromKw =>
          let src ← nextString
          refuseAttributes t
          pure [fromKw, (← leafOf src .string).withField .source]
        | none => pure []
      let semi ← semicolon
      return Node.span .exportStatement ([kw] ++ typeKw.toList ++ [clause] ++ tail ++ semi) kw.start
    else if Token.is t "=" then
      let eq ← expect "="
      let value ← expression fuel
      let semi ← semicolon
      return Node.span .exportStatement ([kw, eq, value] ++ semi) kw.start
    else if Token.is t "import" then
      let imp ← expect "import"
      let n ← nameLeaf (← nextWord)
      let eq ← expect "="
      let first ← nextWord
      let mut target := [← nameLeaf first]
      for _ in [0:fuel] do
        match ← accept "." with
        | some dot => target := target ++ [dot, ← leafOf (← nextWord) .propertyIdentifier]
        | none => break
      let semi ← semicolon
      let imported := Node.span (.named "import_alias") ([imp, n, eq] ++ target ++ semi) imp.start
      return Node.span .exportStatement [kw, imported.withField .declaration] kw.start
    else if Token.is t "as" then
      let asKw ← expect "as"
      let nsKw ← expect "namespace"
      let n ← nameLeaf (← nextWord)
      let semi ← semicolon
      return Node.span .exportStatement ([kw, asKw, nsKw, n] ++ semi) kw.start
    else
      let d ← statement fuel
      return Node.span .exportStatement [kw, d.withField .declaration] kw.start

/-- Reads the braces of `export { a as b, c }`. -/
def exportClause : Nat → Reader Node
  | 0 => fail
  | fuel + 1 => do
    let op ← expect "\x7b"
    let mut children := [op]
    for _ in [0:fuel] do
      if let some cl ← accept "\x7d" then
        return Node.span (.named "export_clause") (children ++ [cl]) op.start
      let typeKw ← if (← isAt "type") && !(← isAtModifierEnd) then accept "type" else pure none
      let n ← nextIf fun n => n.kind == .string || n.kind == .word
      let nameNode ← if n.kind == .string then leafOf n .string else nameLeaf n
      let asName ←
        match ← accept "as" with
        | some asKw =>
          let a ← nextIf fun a => a.kind == .string || a.kind == .word
          let aliasNode ← if a.kind == .string then leafOf a .string else nameLeaf a
          pure [asKw, aliasNode.withField .renamedAs]
        | none => pure []
      children := children ++
        [Node.span (.named "export_specifier") (typeKw.toList ++ [nameNode.withField .name] ++ asName)
          ((typeKw.map (·.start)).getD nameNode.start)]
      if let some comma ← accept "," then children := children ++ [comma]
      else if !(← isAt "\x7d") then fail
    fail

/-- Reads a statement. -/
def statement : Nat → Reader Node
  | 0 => fail
  | fuel + 1 => withinStatement do
    let t ← peek
    let u ← peekSecond
    if t.kind == .eof || t.kind == .invalid then fail
    if Token.is t ";" then
      let semi ← expect ";"
      return Node.span (.named "empty_statement") [semi] semi.start
    if Token.is t "\x7b" then return ← block fuel
    if t.kind == .word then
      match t.text with
      | "import" =>
        if Token.is u "(" || Token.is u "." then expressionStatement fuel
        else importStatement fuel
      | "export" => exportStatement fuel
      | "const" =>
        if Token.is u "enum" then
          let kw ← tokenLeaf (← next)
          let e ← statement fuel
          return Node.span (.named "enum_declaration") [kw, e] kw.start
        else declaration fuel
      | "let" => declaration fuel
      | "var" => declaration fuel
      | "function" =>
        let src ← source
        let afterStar := if Token.is u "*" then (src.scan u.stop).2 else u
        if !Token.isName afterStar then
          let _ ← next
          if Token.is u "*" then discard next
          fail
        functionRest fuel []
      | "async" =>
        if Token.is u "function" && !u.newlineBefore then
          let kw ← tokenLeaf (← next)
          functionRest fuel [kw]
        else expressionStatement fuel
      | "class" =>
        if !(Token.isName u && u.text != "implements") then
          let _ ← next
          fail
        classRest fuel []
      | "abstract" =>
        if Token.is u "class" then
          let kw ← tokenLeaf (← next)
          classRest fuel [kw]
        else expressionStatement fuel
      | "if" =>
        let kw ← expect "if"
        let cond ← parenthesized fuel
        let yes ← statement fuel
        match ← accept "else" with
        | some elseKw =>
          let no ← statement fuel
          return Node.span (.named "if_statement")
            [kw, cond, yes, Node.span (.named "else_clause") [elseKw, no] elseKw.start] kw.start
        | none => return Node.span (.named "if_statement") [kw, cond, yes] kw.start
      | "for" =>
        let kw ← expect "for"
        let awaitKw ← accept "await"
        let headNodes ← forHead fuel
        let body ← statement fuel
        return Node.span (.named "for_statement") ([kw] ++ awaitKw.toList ++ headNodes ++ [body]) kw.start
      | "while" =>
        let kw ← expect "while"
        let cond ← parenthesized fuel
        let body ← statement fuel
        return Node.span (.named "while_statement") [kw, cond, body] kw.start
      | "do" =>
        let kw ← expect "do"
        let body ← statement fuel
        let whileKw ← expect "while"
        let cond ← parenthesized fuel
        let semi ← accept ";"
        return Node.span (.named "do_statement") ([kw, body, whileKw, cond] ++ semi.toList) kw.start
      | "with" =>
        let kw ← expect "with"
        let obj ← parenthesized fuel
        let body ← statement fuel
        return Node.span (.named "with_statement") [kw, obj, body] kw.start
      | "return" =>
        let kw ← expect "return"
        let v ← peek
        let arg ←
          if Token.is v ";" || Token.is v "\x7d" || v.kind == .eof || v.newlineBefore then pure []
          else
            noteOwnRegion
            pure [← expression fuel]
        let semi ← semicolon
        return Node.span .returnStatement ([kw] ++ arg ++ semi) kw.start
      | "throw" =>
        let kw ← expect "throw"
        let arg ← expression fuel
        let semi ← semicolon
        return Node.span (.named "throw_statement") ([kw, arg] ++ semi) kw.start
      | "break" | "continue" =>
        let kw ← tokenLeaf (← next)
        let v ← peek
        let label ← if Token.isName v && !v.newlineBefore then pure [← nameLeaf (← next)] else pure []
        let semi ← semicolon
        return Node.span (.named (t.text ++ "_statement")) ([kw] ++ label ++ semi) kw.start
      | "debugger" =>
        let kw ← expect "debugger"
        let semi ← semicolon
        return Node.span (.named "debugger_statement") ([kw] ++ semi) kw.start
      | "try" =>
        let kw ← expect "try"
        let body ← block fuel
        let mut parts := [kw, body]
        if let some catchKw ← accept "catch" then
          let mut clause := [catchKw]
          if let some op ← accept "(" then
            let p ← pattern fuel
            let ty ← if (← isAt ":") then pure [← typeAnnotation fuel] else pure []
            let cl ← expect ")"
            clause := clause ++ [op, p] ++ ty ++ [cl]
          let handler ← block fuel
          parts := parts ++ [Node.span (.named "catch_clause") (clause ++ [handler]) catchKw.start]
        if let some finKw ← accept "finally" then
          let fin ← block fuel
          parts := parts ++ [Node.span (.named "finally_clause") [finKw, fin] finKw.start]
        if parts.length == 2 then fail
        return Node.span (.named "try_statement") parts kw.start
      | "switch" =>
        let kw ← expect "switch"
        let subject ← parenthesized fuel
        let op ← expect "\x7b"
        let mut cases := [op]
        let mut closed := false
        for _ in [0:fuel] do
          if let some cl ← accept "\x7d" then
            cases := cases ++ [cl]
            closed := true
            break
          let v ← peek
          let mut clause : List Node := []
          if Token.is v "case" then
            let caseKw ← expect "case"
            let e ← expression fuel
            clause := [caseKw, e, ← expect ":"]
          else if Token.is v "default" then
            clause := [← expect "default", ← expect ":"]
          else fail
          for _ in [0:fuel] do
            if (← isAtAny ["case", "default", "\x7d"]) then break
            clause := clause ++ [← statement fuel]
          cases := cases ++ [Node.span (.named "switch_case") clause ((clause.head?.map (·.start)).getD 0)]
        if !closed then fail
        let body := Node.span (.named "switch_body") cases op.start
        return Node.span (.named "switch_statement") [kw, subject, body] kw.start
      | "interface" =>
        if Token.isName u && !u.newlineBefore then
          let kw ← expect "interface"
          let n ← nameLeaf (← next)
          let tps ← if (← isAt "<") then group true fuel else pure []
          let mut heritage : List Node := []
          if let some ext ← accept "extends" then
            heritage := [ext] ++ (← typeExpr fuel)
            for _ in [0:fuel] do
              match ← accept "," with
              | some comma => heritage := heritage ++ [comma] ++ (← typeExpr fuel)
              | none => break
          let body ← objectType fuel
          return Node.span (.named "interface_declaration") ([kw, n] ++ tps ++ heritage ++ body) kw.start
        else expressionStatement fuel
      | "type" =>
        if Token.isName u && !u.newlineBefore then
          let kw ← expect "type"
          let n ← nameLeaf (← next)
          let tps ← if (← isAt "<") then group true fuel else pure []
          let eq ← expect "="
          let ty ← typeExpr fuel
          let semi ← semicolon
          return Node.span (.named "type_alias_declaration") ([kw, n] ++ tps ++ [eq] ++ ty ++ semi) kw.start
        else expressionStatement fuel
      | "enum" =>
        let kw ← expect "enum"
        let n ← nameLeaf (← nextWord)
        let body ← enumBody fuel
        return Node.span (.named "enum_declaration") [kw, n, body] kw.start
      | "declare" =>
        if !u.newlineBefore && u.kind == .word then
          let kw ← expect "declare"
          let inner ← statement fuel
          return Node.span (.named "ambient_declaration") [kw, inner] kw.start
        else expressionStatement fuel
      | "namespace" | "module" | "global" =>
        if !u.newlineBefore && (u.kind == .word || u.kind == .string || Token.is u "\x7b") then
          let kw ← tokenLeaf (← next)
          let mut parts := [kw]
          if !(← isAt "\x7b") then
            let n ← next
            parts := parts ++ [← looseLeaf n]
            for _ in [0:fuel] do
              match ← accept "." with
              | some dot => parts := parts ++ [dot, ← looseLeaf (← nextWord)]
              | none => break
          if (← isAt "\x7b") then
            let body ← block fuel
            return Node.span (.named "module") (parts ++ [body]) kw.start
          else
            let semi ← semicolon
            return Node.span (.named "module") (parts ++ semi) kw.start
        else expressionStatement fuel
      | _ =>
        if Token.isName t && Token.is u ":" then
          let label ← nameLeaf (← next)
          let colon ← expect ":"
          let body ← statement fuel
          return Node.span (.named "labeled_statement") [label, colon, body] label.start
        else expressionStatement fuel
    else if Token.is t "@" then
      let atSign ← expect "@"
      let e ← callMember fuel true
      let dec := Node.span (.named "decorator") [atSign, e] atSign.start
      let c ← statement fuel
      return Node.span c.kind (dec :: c.children) dec.start
    else expressionStatement fuel

/-- Reads an expression statement. -/
def expressionStatement : Nat → Reader Node
  | 0 => fail
  | fuel + 1 => do
    let e ← expression fuel
    let semi ← semicolon
    return Node.span .expressionStatement (e :: semi) e.start

/-- Reads a parenthesized condition. -/
def parenthesized : Nat → Reader Node
  | 0 => fail
  | fuel + 1 => do
    let op ← expect "("
    let e ← expression fuel
    let cl ← expect ")"
    return Node.span .parenthesizedExpression [op, e, cl] op.start

/-- Reads an `import` statement. -/
def importStatement : Nat → Reader Node
  | 0 => fail
  | fuel + 1 => do
    let kw ← expect "import"
    let t ← peek
    let u ← peekSecond
    let typeKw ←
      if (Token.is t "type" || Token.is t "typeof") &&
          !(Token.is u "from" || Token.is u "," || Token.is u "=") then
        pure [← tokenLeaf (← next)]
      else pure []
    let t ← peek
    let finish (middle : List Node) : Reader Node := do
      let mut tail : List Node := []
      let v ← peek
      if (Token.is v "with" || Token.is v "assert") && !v.newlineBefore then
        let w ← tokenLeaf (← next)
        tail := [w, ← object fuel]
      let semi ← semicolon
      return Node.span .importStatement ([kw] ++ typeKw ++ middle ++ tail ++ semi) kw.start
    if t.kind == .string then
      let _ ← next
      let s ← leafOf t .string
      finish [s.withField .source]
    else
      let u ← peekSecond
      if Token.isName t && Token.is u "=" then
        let n ← nameLeaf (← next)
        let eq ← expect "="
        let v ← peek
        if Token.is v "require" && Token.is (← peekSecond) "(" then
          let req ← tokenLeaf (← next)
          let op ← expect "("
          let s ← nextString
          let sNode ← leafOf s .string
          let cl ← expect ")"
          finish [Node.span .importRequireClause [n, eq, req, op, sNode.withField .source, cl] n.start]
        else
          let target ← callMember fuel false
          finish [Node.span (.named "import_alias") [n, eq, target] n.start]
      else
        let mut clause : List Node := []
        if Token.isName t then
          clause := [← nameLeaf (← next)]
          if let some comma ← accept "," then clause := clause ++ [comma]
        let v ← peek
        if Token.is v "*" then
          let star ← expect "*"
          let asKw ← expect "as"
          let n ← nameLeaf (← nextWord)
          clause := clause ++ [Node.span .namespaceImport [star, asKw, n] star.start]
        else if Token.is v "\x7b" then
          clause := clause ++ [← namedImports fuel]
        if clause.isEmpty then fail
        let fromKw ← expect "from"
        let s ← nextString
        let sNode ← leafOf s .string
        let clauseNode := Node.span .importClause clause ((clause.head?.map (·.start)).getD 0)
        finish [clauseNode, fromKw, sNode.withField .source]

/-- Reads the braces of `import { a as b, c }`. -/
def namedImports : Nat → Reader Node
  | 0 => fail
  | fuel + 1 => do
    let op ← expect "\x7b"
    let mut children := [op]
    for _ in [0:fuel] do
      if let some cl ← accept "\x7d" then
        return Node.span .namedImports (children ++ [cl]) op.start
      let typeKw ← if (← isAt "type") && !(← isAtModifierEnd) then accept "type" else pure none
      let n ← nextIf fun n => n.kind == .string || n.kind == .word
      let nameNode ← if n.kind == .string then leafOf n .string else nameLeaf n
      let asName ←
        match ← accept "as" with
        | some asKw =>
          let a ← nextWord
          pure [asKw, (← nameLeaf a).withField .renamedAs]
        | none => pure []
      children := children ++
        [Node.span .importSpecifier (typeKw.toList ++ [nameNode.withField .name] ++ asName)
          ((typeKw.map (·.start)).getD nameNode.start)]
      if let some comma ← accept "," then children := children ++ [comma]
      else if !(← isAt "\x7d") then fail
    fail

end

end Reader

end Monorepo.Script
