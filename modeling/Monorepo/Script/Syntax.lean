import Monorepo.Script.Token

/-! Syntax trees of TypeScript and JavaScript sources. A node has a kind, the role it plays in
its parent, its byte range and its children in source order; punctuation and keywords are
unnamed children, comments are named children placed in the smallest node that holds tokens on
both sides of them. -/

namespace Monorepo.Script

/-- The kinds of node that the codemods look at; all others keep their grammar name. -/
inductive Kind where
  | program
  | comment
  | exportStatement
  | importStatement
  | importClause
  | namedImports
  | importSpecifier
  | namespaceImport
  | importRequireClause
  | expressionStatement
  | lexicalDeclaration
  | variableDeclaration
  | variableDeclarator
  | assignmentExpression
  | callExpression
  | arguments
  | memberExpression
  | identifier
  | propertyIdentifier
  | shorthandPropertyIdentifier
  | object
  | pair
  | array
  | string
  | templateString
  | templateSubstitution
  | number
  | trueLiteral
  | falseLiteral
  | nullLiteral
  | unaryExpression
  | parenthesizedExpression
  | asExpression
  | satisfiesExpression
  | nonNullExpression
  | arrowFunction
  | functionExpression
  | functionDeclaration
  | statementBlock
  | returnStatement
  | importKeyword
  | named (name : String)
  | token (text : String)
  deriving DecidableEq, Repr, Inhabited

/-- The grammar name of a kind; an unnamed token is named by its text. -/
def Kind.name : Kind → String
  | .program => "program"
  | .comment => "comment"
  | .exportStatement => "export_statement"
  | .importStatement => "import_statement"
  | .importClause => "import_clause"
  | .namedImports => "named_imports"
  | .importSpecifier => "import_specifier"
  | .namespaceImport => "namespace_import"
  | .importRequireClause => "import_require_clause"
  | .expressionStatement => "expression_statement"
  | .lexicalDeclaration => "lexical_declaration"
  | .variableDeclaration => "variable_declaration"
  | .variableDeclarator => "variable_declarator"
  | .assignmentExpression => "assignment_expression"
  | .callExpression => "call_expression"
  | .arguments => "arguments"
  | .memberExpression => "member_expression"
  | .identifier => "identifier"
  | .propertyIdentifier => "property_identifier"
  | .shorthandPropertyIdentifier => "shorthand_property_identifier"
  | .object => "object"
  | .pair => "pair"
  | .array => "array"
  | .string => "string"
  | .templateString => "template_string"
  | .templateSubstitution => "template_substitution"
  | .number => "number"
  | .trueLiteral => "true"
  | .falseLiteral => "false"
  | .nullLiteral => "null"
  | .unaryExpression => "unary_expression"
  | .parenthesizedExpression => "parenthesized_expression"
  | .asExpression => "as_expression"
  | .satisfiesExpression => "satisfies_expression"
  | .nonNullExpression => "non_null_expression"
  | .arrowFunction => "arrow_function"
  | .functionExpression => "function_expression"
  | .functionDeclaration => "function_declaration"
  | .statementBlock => "statement_block"
  | .returnStatement => "return_statement"
  | .importKeyword => "import"
  | .named n => n
  | .token t => t

/-- Whether nodes of a kind are named; only tokens are not. -/
def Kind.isNamed : Kind → Bool
  | .token _ => false
  | _ => true

/-- The role a child plays in its parent. -/
inductive Field where
  | source
  | callee
  | arguments
  | value
  | declaration
  | left
  | right
  | name
  | renamedAs
  | key
  | body
  | operator
  | argument
  deriving DecidableEq, Repr

/-- A node of a syntax tree, with its byte range in the source. -/
structure Node where
  kind : Kind
  field : Option Field
  start : Nat
  stop : Nat
  children : List Node
  deriving Inhabited

namespace Node

def leaf (kind : Kind) (start stop : Nat) : Node := ⟨kind, none, start, stop, []⟩

def withField (n : Node) (f : Field) : Node := { n with field := some f }

def withKind (n : Node) (k : Kind) : Node := { n with kind := k }

/-- A node spanning its children; with no children it is empty at `offset`. -/
def span (kind : Kind) (children : List Node) (offset : Nat) : Node :=
  match children.head?, children.getLast? with
  | some first, some last => ⟨kind, none, first.start, last.stop, children⟩
  | _, _ => ⟨kind, none, offset, offset, children⟩

def isNamed (n : Node) : Bool := n.kind.isNamed

def isComment (n : Node) : Bool := n.kind == .comment

def namedChildren (n : Node) : List Node := n.children.filter (·.isNamed)

def members (n : Node) : List Node := n.children.filter fun c => c.isNamed && !c.isComment

def firstMember? (n : Node) : Option Node := n.members.head?

def child? (n : Node) (f : Field) : Option Node := n.children.find? (·.field == some f)

def hasToken (n : Node) (t : String) : Bool := n.children.any (·.kind == .token t)

def text (n : Node) (src : Source) : String := src.bytes n.start n.stop

def after (n : Node) (c : Node) : List Node :=
  (n.children.dropWhile fun d => !(d.start == c.start && d.stop == c.stop && d.kind == c.kind)).drop 1

mutual

def firstString : Node → Option Node
  | ⟨k, f, s, e, cs⟩ => if k == .string then some ⟨k, f, s, e, cs⟩ else firstStringAmong cs

/-- The first string literal among sibling trees. -/
def firstStringAmong : List Node → Option Node
  | [] => none
  | n :: rest =>
    match (if n.isNamed then firstString n else none) with
    | some found => some found
    | none => firstStringAmong rest

end

end Node

end Monorepo.Script
